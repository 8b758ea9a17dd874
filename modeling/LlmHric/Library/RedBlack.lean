import Mathlib.Data.List.Basic
import Mathlib.Order.Basic
import Mathlib.Tactic.Common

/-! Insertion and deletion of the textbook (CLRS) work on a node and the path above it: they go down
to a leaf or a node, change the tree there, and repair colours on the way up. A tree is modelled
without parent pointers; the path above a node is a list of frames, the nearest first. The order of
the elements is not fixed: insertion asks an arbitrary test whether to go left, and search asks an
arbitrary probe. -/

namespace RedBlack

/-- The colour of a node. -/
inductive Color
  | red
  | black
  deriving DecidableEq

/-- A binary tree with coloured nodes. -/
inductive Tree (α : Type*)
  | nil
  | node (c : Color) (l : Tree α) (a : α) (r : Tree α)
  deriving DecidableEq

/-- One step of the path above a node. -/
inductive Frame (α : Type*)
  /-- The node is the left child. -/
  | left (c : Color) (a : α) (r : Tree α)
  /-- The node is the right child. -/
  | right (c : Color) (l : Tree α) (a : α)

variable {α : Type*}

namespace Tree

/-- The elements in order. -/
def toList : Tree α → List α
  | nil => []
  | node _ l a r => l.toList ++ a :: r.toList

/-- The colour of the root; a missing node counts as black. -/
def color : Tree α → Color
  | nil => .black
  | node c _ _ _ => c

/-- Paint the root. -/
def paint (c : Color) : Tree α → Tree α
  | nil => nil
  | node _ l a r => node c l a r

@[simp] theorem toList_nil : (nil : Tree α).toList = [] := rfl

@[simp] theorem toList_node (c : Color) (l : Tree α) (a : α) (r : Tree α) :
    (node c l a r).toList = l.toList ++ a :: r.toList := rfl

@[simp] theorem color_node (c : Color) (l : Tree α) (a : α) (r : Tree α) :
    (node c l a r).color = c := rfl

@[simp] theorem color_nil : (nil : Tree α).color = .black := rfl

@[simp] theorem paint_node (c d : Color) (l : Tree α) (a : α) (r : Tree α) :
    (node c l a r).paint d = node d l a r := rfl

@[simp] theorem paint_nil (c : Color) : (nil : Tree α).paint c = nil := rfl

@[simp] theorem toList_paint (c : Color) (t : Tree α) : (t.paint c).toList = t.toList := by
  cases t <;> rfl

end Tree

open RedBlack.Tree

namespace Frame

/-- The colour of the parent. -/
def color : Frame α → Color
  | left c _ _ => c
  | right c _ _ => c

/-- The other child of the parent. -/
def sibling : Frame α → Tree α
  | left _ _ r => r
  | right _ l _ => l

/-- The tree at the parent. -/
def fill : Frame α → Tree α → Tree α
  | left c a r, t => node c t a r
  | right c l a, t => node c l a t

/-- The elements that come before the node. -/
def before : Frame α → List α
  | left _ _ _ => []
  | right _ l a => l.toList ++ [a]

/-- The elements that come after the node. -/
def after : Frame α → List α
  | left _ a r => a :: r.toList
  | right _ _ _ => []

@[simp] theorem toList_fill (f : Frame α) (t : Tree α) :
    (f.fill t).toList = f.before ++ t.toList ++ f.after := by
  cases f <;> simp [fill, before, after]

end Frame

/-- The tree around a node. -/
def plug (t : Tree α) (path : List (Frame α)) : Tree α := path.foldl (fun t f => f.fill t) t

/-- The elements that come before the node at the end of a path. -/
def before : List (Frame α) → List α
  | [] => []
  | f :: path => before path ++ f.before

/-- The elements that come after the node at the end of a path. -/
def after : List (Frame α) → List α
  | [] => []
  | f :: path => f.after ++ after path

@[simp] theorem plug_nil (t : Tree α) : plug t [] = t := rfl

@[simp] theorem plug_cons (t : Tree α) (f : Frame α) (path : List (Frame α)) :
    plug t (f :: path) = plug (f.fill t) path := rfl

theorem plug_append (t : Tree α) (p q : List (Frame α)) : plug t (p ++ q) = plug (plug t p) q :=
  List.foldl_append

theorem toList_plug (t : Tree α) (path : List (Frame α)) :
    (plug t path).toList = before path ++ t.toList ++ after path := by
  induction path generalizing t with
  | nil => simp [before, after]
  | cons f path ih => simp [ih, before, after]

/-! ### Insertion -/

/-- Go down to the place of a new leaf. -/
def descend (goLeft : α → Bool) : Tree α → List (Frame α) → List (Frame α)
  | .nil, path => path
  | .node c l a r, path =>
    if goLeft a then descend goLeft l (.left c a r :: path)
    else descend goLeft r (.right c l a :: path)

/-- Case 1 of the repair: parent and uncle are red and become black, the grandparent red. -/
def flipColors (z : Tree α) (parent : Frame α) : Frame α → Tree α
  | .left _ g uncle => .node .red ((parent.fill z).paint .black) g (uncle.paint .black)
  | .right _ uncle g => .node .red (uncle.paint .black) g ((parent.fill z).paint .black)

/-- Cases 2 and 3 of the repair: rotate the parent, or the node itself if it is the inner
grandchild, to the top. -/
def rotateUp (z : Tree α) : Frame α → Frame α → Tree α
  | .left _ p pr, .left _ g uncle => .node .black z p (.node .red pr g uncle)
  | .right _ pl p, .right _ uncle g => .node .black (.node .red uncle g pl) p z
  | .right c pl p, .left d g uncle =>
    match z with
    | .node _ zl a zr => .node .black (.node .red pl p zl) a (.node .red zr g uncle)
    | .nil => .node d (.node c pl p .nil) g uncle
  | .left c p pr, .right d uncle g =>
    match z with
    | .node _ zl a zr => .node .black (.node .red uncle g zl) a (.node .red zr p pr)
    | .nil => .node d uncle g (.node c .nil p pr)

/-- Repair the colours above a red node. -/
def insertFixup : Tree α → List (Frame α) → Tree α
  | z, parent :: grand :: path =>
    match parent.color with
    | .black => (plug z (parent :: grand :: path)).paint .black
    | .red =>
      match grand.sibling.color with
      | .red => insertFixup (flipColors z parent grand) path
      | .black => (plug (rotateUp z parent grand) path).paint .black
  | z, path => (plug z path).paint .black

/-- Insert an element as a new leaf. -/
def Tree.insert (goLeft : α → Bool) (a : α) (t : Tree α) : Tree α :=
  insertFixup (.node .red .nil a .nil) (descend goLeft t [])

theorem toList_flipColors (z : Tree α) (parent grand : Frame α) :
    (flipColors z parent grand).toList = (grand.fill (parent.fill z)).toList := by
  cases grand <;> simp [flipColors, Frame.fill]

theorem toList_rotateUp (z : Tree α) (parent grand : Frame α) :
    (rotateUp z parent grand).toList = (grand.fill (parent.fill z)).toList := by
  cases parent <;> cases grand <;> cases z <;> simp [rotateUp, Frame.fill]

/-- The repair does not touch the order of the elements. -/
theorem toList_insertFixup (z : Tree α) (path : List (Frame α)) :
    (insertFixup z path).toList = (plug z path).toList := by
  fun_induction insertFixup z path with
  | case1 => rw [toList_paint]
  | case2 z parent grand path _ _ ih =>
    rw [ih, toList_plug, toList_flipColors, plug_cons, plug_cons, toList_plug]
  | case3 z parent grand path =>
    rw [toList_paint, toList_plug, toList_rotateUp, plug_cons, plug_cons, toList_plug]
  | case4 => rw [toList_paint]

/-- Going left once means going left ever after, along the elements in order. -/
def GoesLeftOnward (goLeft : α → Bool) (t : Tree α) : Prop :=
  t.toList.Pairwise fun x y => goLeft x = true → goLeft y = true

theorem GoesLeftOnward.node {goLeft : α → Bool} {c : Color} {l r : Tree α} {a : α}
    (h : GoesLeftOnward goLeft (.node c l a r)) :
    GoesLeftOnward goLeft l ∧ GoesLeftOnward goLeft r ∧
      (goLeft a = false → ∀ x ∈ l.toList, goLeft x = false) ∧
      (goLeft a = true → ∀ x ∈ r.toList, goLeft x = true) := by
  simp only [GoesLeftOnward, toList_node, List.pairwise_append, List.pairwise_cons,
    List.mem_cons, forall_eq_or_imp] at h
  obtain ⟨hl, ⟨har, hr⟩, hla⟩ := h
  refine ⟨hl, hr, ?_, fun ha x hx => har x hx ha⟩
  intro ha x hx
  by_contra hne
  rw [(hla x hx).1 ((Bool.not_eq_false _).mp hne)] at ha
  cases ha

/-- The new leaf stands after the elements that send it right and before those that send it
left. -/
theorem before_after_descend {goLeft : α → Bool} {t : Tree α} (h : GoesLeftOnward goLeft t)
    (path : List (Frame α)) :
    before (descend goLeft t path) = before path ++ t.toList.filter (!goLeft ·) ∧
      after (descend goLeft t path) = t.toList.filter goLeft ++ after path := by
  induction t generalizing path with
  | nil => simp [descend]
  | node c l a r ihl ihr =>
    obtain ⟨hl, hr, hleft, hright⟩ := h.node
    unfold descend
    split
    · -- the whole right subtree sends the element left
      next ha =>
      obtain ⟨hbefore, hafter⟩ := ihl hl (.left c a r :: path)
      have hrt : r.toList.filter goLeft = r.toList := List.filter_eq_self.mpr (hright ha)
      have hrf : r.toList.filter (!goLeft ·) = [] := by
        simpa [List.filter_eq_nil_iff] using hright ha
      rw [hbefore, hafter]
      simp [before, after, Frame.before, Frame.after, ha, hrt, hrf]
    · -- the whole left subtree sends it right
      next ha =>
      have ha : goLeft a = false := Bool.eq_false_iff.mpr ha
      obtain ⟨hbefore, hafter⟩ := ihr hr (.right c l a :: path)
      have hlf : l.toList.filter (!goLeft ·) = l.toList :=
        List.filter_eq_self.mpr (by simpa using hleft ha)
      have hlt : l.toList.filter goLeft = [] := by
        simpa [List.filter_eq_nil_iff] using hleft ha
      rw [hbefore, hafter]
      simp [before, after, Frame.before, Frame.after, ha, hlt, hlf]

/-- Insertion puts the element behind all that send it right. -/
theorem toList_insert {goLeft : α → Bool} {t : Tree α} (h : GoesLeftOnward goLeft t) (a : α) :
    (t.insert goLeft a).toList = t.toList.filter (!goLeft ·) ++ a :: t.toList.filter goLeft := by
  obtain ⟨hbefore, hafter⟩ := before_after_descend h []
  rw [Tree.insert, toList_insertFixup, toList_plug, hbefore, hafter]
  simp [before, after]

/-! ### Search -/

/-- A node of a tree and the path above it. -/
structure Located (α : Type*) where
  color : Color
  left : Tree α
  elem : α
  right : Tree α
  path : List (Frame α)

/-- The tree a located node comes from. -/
def Located.tree (z : Located α) : Tree α := plug (.node z.color z.left z.elem z.right) z.path

/-- Search down from a node; the probe says where to go. -/
def locateFrom (probe : α → Ordering) : Tree α → List (Frame α) → Option (Located α)
  | .nil, _ => none
  | .node c l a r, path =>
    match probe a with
    | .lt => locateFrom probe l (.left c a r :: path)
    | .gt => locateFrom probe r (.right c l a :: path)
    | .eq => some ⟨c, l, a, r, path⟩

/-- Search from the root. -/
def Tree.locate (probe : α → Ordering) (t : Tree α) : Option (Located α) := locateFrom probe t []

/-- The probe is monotone along the elements in order. -/
def ProbesInOrder (probe : α → Ordering) (t : Tree α) : Prop :=
  t.toList.Pairwise fun x y => (probe x = .lt → probe y = .lt) ∧ (probe y = .gt → probe x = .gt)

theorem locateFrom_tree {probe : α → Ordering} {t : Tree α} {path : List (Frame α)}
    {z : Located α} (h : locateFrom probe t path = some z) :
    z.tree = plug t path ∧ probe z.elem = .eq := by
  induction t generalizing path with
  | nil => cases h
  | node c l a r ihl ihr =>
    unfold locateFrom at h
    split at h
    · exact ihl h
    · exact ihr h
    · next ha =>
      obtain rfl := Option.some.inj h
      exact ⟨rfl, ha⟩

theorem locateFrom_isSome {probe : α → Ordering} {t : Tree α} {path : List (Frame α)} {a : α}
    (h : ProbesInOrder probe t) (ha : a ∈ t.toList) (heq : probe a = .eq) :
    (locateFrom probe t path).isSome = true := by
  induction t generalizing path with
  | nil => cases ha
  | node c l b r ihl ihr =>
    simp only [ProbesInOrder, toList_node, List.pairwise_append, List.pairwise_cons, List.mem_cons,
      forall_eq_or_imp] at h
    obtain ⟨hl, ⟨hbr, hr⟩, hlb⟩ := h
    rw [toList_node, List.mem_append, List.mem_cons] at ha
    unfold locateFrom
    -- the element is on the side the probe of the root points to
    split
    · next hb =>
      rcases ha with ha | rfl | ha
      · exact ihl hl ha
      · rw [heq] at hb
        cases hb
      · have hlt := (hbr a ha).1 hb
        rw [heq] at hlt
        cases hlt
    · next hb =>
      rcases ha with ha | rfl | ha
      · have hgt := (hlb a ha).1.2 hb
        rw [heq] at hgt
        cases hgt
      · rw [heq] at hb
        cases hb
      · exact ihr hr ha
    · rfl

/-- The first node in order that satisfies a predicate, located. -/
def firstFrom (p : α → Bool) : Tree α → List (Frame α) → Option (Located α)
  | .nil, _ => none
  | .node c l a r, path =>
    match firstFrom p l (.left c a r :: path) with
    | some z => some z
    | none => if p a then some ⟨c, l, a, r, path⟩ else firstFrom p r (.right c l a :: path)

theorem firstFrom_tree {p : α → Bool} {t : Tree α} {path : List (Frame α)} {z : Located α}
    (h : firstFrom p t path = some z) : z.tree = plug t path := by
  induction t generalizing path with
  | nil => cases h
  | node c l a r ihl ihr =>
    unfold firstFrom at h
    split at h
    · next z' hz =>
      obtain rfl := Option.some.inj h
      exact ihl hz
    · split_ifs at h
      · obtain rfl := Option.some.inj h
        rfl
      · exact ihr h

theorem firstFrom_elem (p : α → Bool) (t : Tree α) (path : List (Frame α)) :
    (firstFrom p t path).map (·.elem) = t.toList.find? p := by
  induction t generalizing path with
  | nil => rfl
  | node c l a r ihl ihr =>
    rw [toList_node, List.find?_append, List.find?_cons, ← ihl (.left c a r :: path), firstFrom]
    cases hl : firstFrom p l (.left c a r :: path) with
    | some z => rfl
    | none =>
      by_cases ha : p a = true
      · simp [ha]
      · simp [ha, ihr]

theorem firstFrom_eq_none {p : α → Bool} {t : Tree α} (h : ∀ a ∈ t.toList, p a = false)
    (path : List (Frame α)) : firstFrom p t path = none := by
  rw [← Option.map_eq_none_iff, firstFrom_elem, List.find?_eq_none]
  intro a ha
  rw [h a ha]
  exact Bool.false_ne_true

/-- Where the elements get strictly greater for the probe, the search by it ends at the first node
in order that it answers `eq` for. -/
theorem firstFrom_eq_locateFrom {probe : α → Ordering} {t : Tree α}
    (h : t.toList.Pairwise fun x y => probe x ≠ .gt → probe y = .lt) (path : List (Frame α)) :
    firstFrom (fun a => probe a == .eq) t path = locateFrom probe t path := by
  induction t generalizing path with
  | nil => rfl
  | node c l a r ihl ihr =>
    rw [toList_node, List.pairwise_append, List.pairwise_cons] at h
    obtain ⟨hl, ⟨har, hr⟩, hlr⟩ := h
    have hleft : probe a ≠ .lt → ∀ x ∈ l.toList, (probe x == .eq) = false := by
      intro ha x hx
      have hgt : probe x = .gt := by
        by_contra hne
        exact ha (hlr x hx a (List.mem_cons_self ..) hne)
      rw [hgt]
      rfl
    rw [firstFrom, locateFrom]
    cases ha : probe a with
    | lt =>
      have hright : ∀ x ∈ r.toList, (probe x == .eq) = false := by
        intro x hx
        rw [har x hx (by rw [ha]; exact Ordering.noConfusion)]
        rfl
      rw [ihl hl, firstFrom_eq_none hright]
      cases locateFrom probe l (.left c a r :: path) with
      | some z => rfl
      | none => rfl
    | gt =>
      rw [firstFrom_eq_none (hleft (by rw [ha]; exact Ordering.noConfusion))]
      apply ihr hr
    | eq =>
      rw [firstFrom_eq_none (hleft (by rw [ha]; exact Ordering.noConfusion))]
      rfl

/-- The tree with another element at a located node. -/
def Located.write (z : Located α) (a : α) : Tree α := plug (.node z.color z.left a z.right) z.path

theorem Located.toList_write (z : Located α) (a : α) :
    ∃ pre post, z.tree.toList = pre ++ z.elem :: post ∧ (z.write a).toList = pre ++ a :: post := by
  refine ⟨before z.path ++ z.left.toList, z.right.toList ++ after z.path, ?_, ?_⟩
  · simp [Located.tree, toList_plug]
  · simp [Located.write, toList_plug]

/-! ### Deletion -/

/-- The outcome of one repair step below a parent. -/
inductive Repair (α : Type*)
  /-- The deficit moved up to the parent. -/
  | up (t : Tree α)
  /-- The repair is complete, but for the root that is painted black. -/
  | complete (t : Tree α)
  /-- The deficit was taken by a red node. -/
  | absorbed (t : Tree α)

def Repair.tree : Repair α → Tree α
  | .up t => t
  | .complete t => t
  | .absorbed t => t

/-- Cases 2 to 4 of the repair at a left child `x` with a black sibling. -/
def repairLeft (x : Tree α) (pc : Color) (p : α) : Tree α → Option (Repair α)
  | .node .black wl w wr =>
    match wl, wr.color with
    | .node .red wll u wlr, .black =>
      some (.complete (.node pc (.node .black x p wll) u (.node .black wlr w wr)))
    | wl, .red => some (.complete (.node pc (.node .black x p wl) w (wr.paint .black)))
    | wl, .black => some (.up (.node pc x p (.node .red wl w wr)))
  | _ => none

/-- Cases 2 to 4 of the repair at a right child `x` with a black sibling. -/
def repairRight (x : Tree α) (pc : Color) (p : α) : Tree α → Option (Repair α)
  | .node .black wl w wr =>
    match wl.color, wr with
    | .black, .node .red wrl u wrr =>
      some (.complete (.node pc (.node .black wl w wrl) u (.node .black wrr p x)))
    | .red, wr => some (.complete (.node pc (wl.paint .black) w (.node .black wr p x)))
    | .black, wr => some (.up (.node pc (.node .red wl w wr) p x))
  | _ => none

/-- A step below the frame that the rotation of case 1 adds. The parent is red then, so a deficit
that moves up to it ends the loop. -/
def Repair.below (f : Frame α) : Repair α → Repair α
  | .up t => .absorbed (f.fill (t.paint .black))
  | .complete t => .complete (f.fill t)
  | .absorbed t => .absorbed (f.fill t)

/-- One round of the repair at a child below its parent. It fails where the sibling that the
algorithm reads does not exist. -/
def repairRound (x : Tree α) : Frame α → Option (Repair α)
  | .left _ p (.node .red wl w wr) => (repairLeft x .red p wl).map (.below (.left .black w wr))
  | .right _ (.node .red wl w wr) p => (repairRight x .red p wr).map (.below (.right .black wl w))
  | .left pc p w => repairLeft x pc p w
  | .right pc w p => repairRight x pc p w

/-- Repair the missing black node above `x`. -/
def deleteFixup : Tree α → List (Frame α) → Option (Tree α)
  | x, [] => some (x.paint .black)
  | x, f :: path =>
    if x.color = .red then some (plug (x.paint .black) (f :: path))
    else
      match repairRound x f with
      | none => none
      | some (.up t) => deleteFixup t path
      | some (.complete t) => some ((plug t path).paint .black)
      | some (.absorbed t) => some (plug t path)

def minimumFrom : Tree α → List (Frame α) → Option (Located α)
  | .nil, _ => none
  | .node c .nil a r, path => some ⟨c, .nil, a, r, path⟩
  | .node c l a r, path => minimumFrom l (.left c a r :: path)

/-- Put a subtree in place of a removed node and repair if the removed node was black. -/
def replace (removed : Color) (x : Tree α) (path : List (Frame α)) : Option (Tree α) :=
  match removed with
  | .black => deleteFixup x path
  | .red => some (plug x path)

/-- Remove a located node. A node with two children is replaced by its successor. -/
def Located.extract (z : Located α) : Option (Tree α) :=
  match z.left, z.right with
  | .nil, r => replace z.color r z.path
  | l, .nil => replace z.color l z.path
  | l, r =>
    match minimumFrom r [] with
    | none => none
    -- the successor's element moves up, its node is the one taken out
    | some y => replace y.color y.right (y.path ++ .right z.color l y.elem :: z.path)

/-- With two subtrees a node gives its place to its successor. -/
theorem Located.extract_of_successor {z y : Located α} (hl : z.left ≠ .nil)
    (hy : minimumFrom z.right [] = some y) :
    z.extract = replace y.color y.right (y.path ++ .right z.color z.left y.elem :: z.path) := by
  unfold Located.extract
  split
  · next hnil => exact absurd hnil hl
  · next hnil _ =>
    rw [hnil] at hy
    cases hy
  · rw [hy]

theorem toList_repairLeft {x w : Tree α} {pc : Color} {p : α} {s : Repair α}
    (h : repairLeft x pc p w = some s) :
    s.tree.toList = x.toList ++ p :: w.toList := by
  unfold repairLeft at h
  split at h
  · split at h <;> obtain rfl := Option.some.inj h <;> simp [Repair.tree]
  · cases h

theorem toList_repairRight {x w : Tree α} {pc : Color} {p : α} {s : Repair α}
    (h : repairRight x pc p w = some s) :
    s.tree.toList = w.toList ++ p :: x.toList := by
  unfold repairRight at h
  split at h
  · split at h <;> obtain rfl := Option.some.inj h <;> simp [Repair.tree]
  · cases h

theorem toList_repairRound {x : Tree α} {f : Frame α} {s : Repair α}
    (h : repairRound x f = some s) : s.tree.toList = (f.fill x).toList := by
  have hbelow : ∀ (g : Frame α) (s : Repair α),
      (s.below g).tree.toList = (g.fill s.tree).toList := by
    intro g s
    cases s <;> simp [Repair.below, Repair.tree]
  unfold repairRound at h
  split at h
  · obtain ⟨s, hs, rfl⟩ := Option.map_eq_some_iff.mp h
    simp [hbelow, toList_repairLeft hs, Frame.fill]
  · obtain ⟨s, hs, rfl⟩ := Option.map_eq_some_iff.mp h
    simp [hbelow, toList_repairRight hs, Frame.fill]
  · exact toList_repairLeft h
  · exact toList_repairRight h

/-- The repair does not touch the order of the elements. -/
theorem toList_deleteFixup {x t : Tree α} {path : List (Frame α)}
    (h : deleteFixup x path = some t) : t.toList = (plug x path).toList := by
  induction path generalizing x with
  | nil =>
    obtain rfl := Option.some.inj h
    simp
  | cons f path ih =>
    rw [deleteFixup] at h
    split at h
    · obtain rfl := Option.some.inj h
      simp [toList_plug]
    · split at h
      · cases h
      · next u hs =>
        have hlist : u.toList = (f.fill x).toList := toList_repairRound hs
        rw [ih h, plug_cons, toList_plug, toList_plug, hlist]
      · next u hs =>
        have hlist : u.toList = (f.fill x).toList := toList_repairRound hs
        obtain rfl := Option.some.inj h
        rw [toList_paint, plug_cons, toList_plug, toList_plug, hlist]
      · next u hs =>
        have hlist : u.toList = (f.fill x).toList := toList_repairRound hs
        obtain rfl := Option.some.inj h
        rw [plug_cons, toList_plug, toList_plug, hlist]

theorem minimumFrom_spec {t : Tree α} {path : List (Frame α)} {y : Located α}
    (h : minimumFrom t path = some y) :
    y.left = .nil ∧ y.tree = plug t path ∧ before y.path = before path := by
  fun_induction minimumFrom t path with
  | case1 => cases h
  | case2 =>
    obtain rfl := Option.some.inj h
    exact ⟨rfl, rfl, rfl⟩
  | case3 c l a r path hl ih =>
    obtain ⟨hleft, htree, hbefore⟩ := ih h
    exact ⟨hleft, htree, by simpa [before, Frame.before] using hbefore⟩

theorem minimumFrom_isSome {t : Tree α} (h : t ≠ .nil) (path : List (Frame α)) :
    (minimumFrom t path).isSome = true := by
  fun_induction minimumFrom t path with
  | case1 => exact absurd rfl h
  | case2 => rfl
  | case3 c l a r path hl ih => exact ih hl

theorem toList_replace {c : Color} {x t : Tree α} {path : List (Frame α)}
    (h : replace c x path = some t) : t.toList = (plug x path).toList := by
  cases c with
  | red =>
    obtain rfl := Option.some.inj h
    rfl
  | black => exact toList_deleteFixup h

/-- Deletion removes exactly the located element. -/
theorem Located.toList_extract {z : Located α} {t : Tree α} (h : z.extract = some t) :
    ∃ pre post, z.tree.toList = pre ++ z.elem :: post ∧ t.toList = pre ++ post := by
  refine ⟨before z.path ++ z.left.toList, z.right.toList ++ after z.path,
    by simp [Located.tree, toList_plug], ?_⟩
  unfold Located.extract at h
  split at h
  · next hl => simp [toList_replace h, toList_plug, hl]
  · next hr _ => simp [toList_replace h, toList_plug, hr]
  · split at h
    · cases h
    · next y hy =>
      obtain ⟨hleft, htree, hbefore⟩ := minimumFrom_spec hy
      have hright : y.elem :: (y.right.toList ++ after y.path) = z.right.toList := by
        have hlist := congrArg Tree.toList htree
        simpa [Located.tree, toList_plug, hleft, hbefore, before] using hlist
      rw [toList_replace h, plug_append, plug_cons, toList_plug, Frame.toList_fill, toList_plug,
        hbefore, ← hright]
      simp [before, Frame.before, Frame.after]

/-! ### The red-black invariants -/

/-- A tree without adjacent red nodes in which all paths to the leaves have the same number of
black nodes; the indices are the colour of the root and that number. -/
inductive Balanced : Tree α → Color → ℕ → Prop
  | nil : Balanced .nil .black 0
  | red {l r : Tree α} {a : α} {n : ℕ} : Balanced l .black n → Balanced r .black n →
      Balanced (.node .red l a r) .red n
  | black {l r : Tree α} {a : α} {c d : Color} {n : ℕ} : Balanced l c n → Balanced r d n →
      Balanced (.node .black l a r) .black (n + 1)

/-- A path whose hole takes a balanced tree of the given colour and black height. -/
inductive PathBalanced : List (Frame α) → Color → ℕ → Prop
  | nil {n : ℕ} : PathBalanced [] .black n
  | redLeft {a : α} {r : Tree α} {path : List (Frame α)} {n : ℕ} : Balanced r .black n →
      PathBalanced path .red n → PathBalanced (.left .red a r :: path) .black n
  | redRight {a : α} {l : Tree α} {path : List (Frame α)} {n : ℕ} : Balanced l .black n →
      PathBalanced path .red n → PathBalanced (.right .red l a :: path) .black n
  | blackLeft {a : α} {r : Tree α} {path : List (Frame α)} {c d : Color} {n : ℕ} : Balanced r d n →
      PathBalanced path .black (n + 1) → PathBalanced (.left .black a r :: path) c n
  | blackRight {a : α} {l : Tree α} {path : List (Frame α)} {c d : Color} {n : ℕ} :
      Balanced l d n → PathBalanced path .black (n + 1) →
      PathBalanced (.right .black l a :: path) c n

def Tree.IsRedBlack (t : Tree α) : Prop := ∃ n, Balanced t .black n

theorem Balanced.color_eq {t : Tree α} {c : Color} {n : ℕ} (h : Balanced t c n) : t.color = c := by
  cases h <;> rfl

theorem Balanced.paint_black {t : Tree α} {c : Color} {n : ℕ} (h : Balanced t c n) :
    (t.paint .black).IsRedBlack := by
  cases h with
  | nil => exact ⟨0, .nil⟩
  | red hl hr => exact ⟨_, .black hl hr⟩
  | black hl hr => exact ⟨_, .black hl hr⟩

theorem Tree.IsRedBlack.paint_black {t : Tree α} (h : t.IsRedBlack) :
    (t.paint .black).IsRedBlack := by
  obtain ⟨n, hn⟩ := h
  exact hn.paint_black

theorem PathBalanced.plug {t : Tree α} {path : List (Frame α)} {c : Color} {n : ℕ}
    (hpath : PathBalanced path c n) (ht : Balanced t c n) : (plug t path).IsRedBlack := by
  induction hpath generalizing t with
  | nil => exact ⟨_, ht⟩
  | redLeft hr _ ih => exact ih (.red ht hr)
  | redRight hl _ ih => exact ih (.red hl ht)
  | blackLeft hr _ ih => exact ih (.black ht hr)
  | blackRight hl _ ih => exact ih (.black hl ht)

/-- Below a black parent any colour fits. -/
theorem PathBalanced.of_black {f : Frame α} {path : List (Frame α)} {c d : Color} {n : ℕ}
    (h : PathBalanced (f :: path) c n) (hf : f.color = .black) : PathBalanced (f :: path) d n := by
  cases h with
  | redLeft => cases hf
  | redRight => cases hf
  | blackLeft hr hpath => exact .blackLeft hr hpath
  | blackRight hl hpath => exact .blackRight hl hpath

theorem Balanced.paint_of_red {t : Tree α} {c : Color} {n : ℕ} (h : Balanced t c n)
    (hred : t.color = .red) : Balanced (t.paint .black) .black (n + 1) := by
  cases h with
  | nil => cases hred
  | red hl hr => exact .black hl hr
  | black => cases hred

theorem Balanced.of_color_black {t : Tree α} {c : Color} {n : ℕ} (h : Balanced t c n)
    (hblack : t.color = .black) : Balanced t .black n := by
  rw [← hblack, h.color_eq]
  exact h

/-- Flipping colours turns a red node with a red parent and uncle into a red node higher up. -/
theorem balanced_flipColors {z : Tree α} {parent grand : Frame α} {path : List (Frame α)} {n : ℕ}
    (hz : Balanced z .red n) (hpath : PathBalanced (parent :: grand :: path) .black n)
    (hred : parent.color = .red) (huncle : grand.sibling.color = .red) :
    Balanced (flipColors z parent grand) .red (n + 1) ∧ PathBalanced path .black (n + 1) := by
  cases hpath with
  | blackLeft => cases hred
  | blackRight => cases hred
  | redLeft hr hgrand =>
    cases hgrand with
    | blackLeft hu hpath => exact ⟨.red (.black hz hr) (hu.paint_of_red huncle), hpath⟩
    | blackRight hu hpath => exact ⟨.red (hu.paint_of_red huncle) (.black hz hr), hpath⟩
  | redRight hl hgrand =>
    cases hgrand with
    | blackLeft hu hpath => exact ⟨.red (.black hl hz) (hu.paint_of_red huncle), hpath⟩
    | blackRight hu hpath => exact ⟨.red (hu.paint_of_red huncle) (.black hl hz), hpath⟩

/-- Rotating a red node with a red parent and a black uncle ends the repair. -/
theorem balanced_rotateUp {z : Tree α} {parent grand : Frame α} {path : List (Frame α)} {n : ℕ}
    (hz : Balanced z .red n) (hpath : PathBalanced (parent :: grand :: path) .black n)
    (hred : parent.color = .red) (huncle : grand.sibling.color = .black) :
    Balanced (rotateUp z parent grand) .black (n + 1) ∧ PathBalanced path .black (n + 1) := by
  cases hz with
  | red hzl hzr =>
    cases hpath with
    | blackLeft => cases hred
    | blackRight => cases hred
    | redLeft hr hgrand =>
      cases hgrand with
      | blackLeft hu hpath =>
        exact ⟨.black (.red hzl hzr) (.red hr (hu.of_color_black huncle)), hpath⟩
      | blackRight hu hpath =>
        exact ⟨.black (.red (hu.of_color_black huncle) hzl) (.red hzr hr), hpath⟩
    | redRight hl hgrand =>
      cases hgrand with
      | blackLeft hu hpath =>
        exact ⟨.black (.red hl hzl) (.red hzr (hu.of_color_black huncle)), hpath⟩
      | blackRight hu hpath =>
        exact ⟨.black (.red (hu.of_color_black huncle) hl) (.red hzl hzr), hpath⟩

/-- The repair after insertion restores the invariants above a red node. -/
theorem isRedBlack_insertFixup {z : Tree α} {path : List (Frame α)} {n : ℕ}
    (hz : Balanced z .red n) (hpath : PathBalanced path .black n) :
    (insertFixup z path).IsRedBlack := by
  fun_induction insertFixup z path generalizing n with
  | case1 z parent grand path hblack => exact ((hpath.of_black hblack).plug hz).paint_black
  | case2 z parent grand path hred huncle ih =>
    obtain ⟨hflip, hpath⟩ := balanced_flipColors hz hpath hred huncle
    exact ih hflip hpath
  | case3 z parent grand path hred huncle =>
    obtain ⟨hrotate, hpath⟩ := balanced_rotateUp hz hpath hred huncle
    exact (hpath.plug hrotate).paint_black
  | case4 z path hshort =>
    -- at most one frame is left: a red parent would be a red root
    rcases path with _ | ⟨f, _ | ⟨g, path⟩⟩
    · exact hz.paint_black
    · cases hpath with
      | redLeft _ hroot => cases hroot
      | redRight _ hroot => cases hroot
      | blackLeft hr hroot => exact (PathBalanced.plug (.blackLeft hr hroot) hz).paint_black
      | blackRight hl hroot => exact (PathBalanced.plug (.blackRight hl hroot) hz).paint_black
    · exact absurd rfl (hshort f g path)

/-- The place of a new leaf in a balanced tree takes a leaf. -/
theorem PathBalanced.descend {goLeft : α → Bool} {t : Tree α} {path : List (Frame α)} {c : Color}
    {n : ℕ} (ht : Balanced t c n) (hpath : PathBalanced path c n) :
    PathBalanced (descend goLeft t path) .black 0 := by
  induction ht generalizing path with
  | nil => exact hpath
  | red hl hr ihl ihr =>
    unfold RedBlack.descend
    split
    · exact ihl (.redLeft hr hpath)
    · exact ihr (.redRight hl hpath)
  | black hl hr ihl ihr =>
    unfold RedBlack.descend
    split
    · exact ihl (.blackLeft hr hpath)
    · exact ihr (.blackRight hl hpath)

/-- Insertion keeps the invariants. -/
theorem Tree.IsRedBlack.insert {t : Tree α} (h : t.IsRedBlack) (goLeft : α → Bool) (a : α) :
    (t.insert goLeft a).IsRedBlack := by
  obtain ⟨n, hn⟩ := h
  exact isRedBlack_insertFixup (.red .nil .nil) (PathBalanced.descend hn .nil)

/-! ### Deletion keeps the invariants -/

/-- A repair step below a parent of colour `pc` whose other subtrees have black height `n`. -/
inductive RepairBalanced (pc : Color) (n : ℕ) : Repair α → Prop
  | up {l r : Tree α} {a : α} {c d : Color} : Balanced l c n → Balanced r d n →
      RepairBalanced pc n (.up (.node pc l a r))
  | complete {l r : Tree α} {a : α} : Balanced l .black (n + 1) → Balanced r .black (n + 1) →
      RepairBalanced pc n (.complete (.node pc l a r))

theorem repairLeft_balanced {x w : Tree α} {n : ℕ} (pc : Color) (p : α)
    (hx : Balanced x .black n) (hw : Balanced w .black (n + 1)) :
    ∃ s, repairLeft x pc p w = some s ∧ RepairBalanced pc n s := by
  cases hw with
  | black hl hr =>
    cases hr with
    | red hrl hrr =>
      cases hl with
      | nil => exact ⟨_, rfl, .complete (.black hx .nil) (.black hrl hrr)⟩
      | red hll hlr => exact ⟨_, rfl, .complete (.black hx (.red hll hlr)) (.black hrl hrr)⟩
      | black hll hlr => exact ⟨_, rfl, .complete (.black hx (.black hll hlr)) (.black hrl hrr)⟩
    | nil =>
      cases hl with
      | nil => exact ⟨_, rfl, .up hx (.red .nil .nil)⟩
      | red hll hlr => exact ⟨_, rfl, .complete (.black hx hll) (.black hlr .nil)⟩
    | black hrl hrr =>
      cases hl with
      | black hll hlr => exact ⟨_, rfl, .up hx (.red (.black hll hlr) (.black hrl hrr))⟩
      | red hll hlr =>
        exact ⟨_, rfl, .complete (.black hx hll) (.black hlr (.black hrl hrr))⟩

theorem repairRight_balanced {x w : Tree α} {n : ℕ} (pc : Color) (p : α)
    (hx : Balanced x .black n) (hw : Balanced w .black (n + 1)) :
    ∃ s, repairRight x pc p w = some s ∧ RepairBalanced pc n s := by
  cases hw with
  | black hl hr =>
    cases hl with
    | red hll hlr =>
      cases hr with
      | nil => exact ⟨_, rfl, .complete (.black hll hlr) (.black .nil hx)⟩
      | red hrl hrr => exact ⟨_, rfl, .complete (.black hll hlr) (.black (.red hrl hrr) hx)⟩
      | black hrl hrr => exact ⟨_, rfl, .complete (.black hll hlr) (.black (.black hrl hrr) hx)⟩
    | nil =>
      cases hr with
      | nil => exact ⟨_, rfl, .up (.red .nil .nil) hx⟩
      | red hrl hrr => exact ⟨_, rfl, .complete (.black .nil hrl) (.black hrr hx)⟩
    | black hll hlr =>
      cases hr with
      | black hrl hrr => exact ⟨_, rfl, .up (.red (.black hll hlr) (.black hrl hrr)) hx⟩
      | red hrl hrr =>
        exact ⟨_, rfl, .complete (.black (.black hll hlr) hrl) (.black hrr hx)⟩

theorem deleteFixup_of_red {x : Tree α} (h : x.color = .red) (path : List (Frame α)) :
    deleteFixup x path = some (plug (x.paint .black) path) := by
  cases path with
  | nil => rfl
  | cons f path => rw [deleteFixup, if_pos h]

/-- After a round the path above takes the result: as a complete tree, as a deficit that goes on,
or as a red node that absorbs it. -/
def RepairFits (path : List (Frame α)) (n : ℕ) : Repair α → Prop
  | .up t => (Balanced t .black (n + 1) ∧ PathBalanced path .black (n + 2)) ∨
      (t.color = .red ∧ (plug (t.paint .black) path).IsRedBlack)
  | .complete t => (plug t path).IsRedBlack
  | .absorbed t => (plug t path).IsRedBlack

section Fits

variable {s : Repair α} {f : Frame α} {path : List (Frame α)} {n : ℕ}

/-- A red hole stands below a black frame, which takes a black tree as well. -/
theorem PathBalanced.of_red {c : Color} (h : PathBalanced path .red n) : PathBalanced path c n := by
  cases h with
  | blackLeft hr hpath => exact .blackLeft hr hpath
  | blackRight hl hpath => exact .blackRight hl hpath

theorem RepairBalanced.fits_red (hs : RepairBalanced .red n s)
    (hpath : PathBalanced path .red (n + 1)) : RepairFits path n s := by
  cases hs with
  | up hl hr => exact .inr ⟨rfl, hpath.of_red.plug (.black hl hr)⟩
  | complete hl hr => exact hpath.plug (.red hl hr)

theorem RepairBalanced.fits_black (hs : RepairBalanced .black n s)
    (hpath : PathBalanced path .black (n + 2)) : RepairFits path n s := by
  cases hs with
  | up hl hr => exact .inl ⟨.black hl hr, hpath⟩
  | complete hl hr => exact hpath.plug (.black hl hr)

theorem RepairBalanced.fits_below (hs : RepairBalanced .red n s)
    (hpath : PathBalanced (f :: path) .black (n + 1)) (hf : f.color = .black) :
    RepairFits path n (s.below f) := by
  cases hs with
  | up hl hr => exact hpath.plug (.black hl hr)
  | complete hl hr => exact (hpath.of_black hf).plug (.red hl hr)

theorem repairRound_fits {x : Tree α} (hx : Balanced x .black n)
    (hpath : PathBalanced (f :: path) .black (n + 1)) :
    ∃ s, repairRound x f = some s ∧ RepairFits path n s := by
  cases hpath with
  | @redLeft p w _ _ hw hrest =>
    obtain ⟨s, hs, hbal⟩ := repairLeft_balanced .red p hx hw
    refine ⟨s, ?_, hbal.fits_red hrest⟩
    -- the sibling of positive black height is a black node
    cases hw
    exact hs
  | @redRight p w _ _ hw hrest =>
    obtain ⟨s, hs, hbal⟩ := repairRight_balanced .red p hx hw
    refine ⟨s, ?_, hbal.fits_red hrest⟩
    cases hw
    exact hs
  | @blackLeft p w _ _ _ _ hw hrest =>
    cases hw with
    | @red wl wr u _ hwl hwr =>
      -- case 1: after the rotation the new sibling is a child of the old one, so it is black
      obtain ⟨s, hs, hbal⟩ := repairLeft_balanced .red p hx hwl
      exact ⟨s.below (.left .black u wr), congrArg (Option.map _) hs,
        hbal.fits_below (.blackLeft hwr hrest) rfl⟩
    | black hwl hwr =>
      obtain ⟨s, hs, hbal⟩ := repairLeft_balanced .black p hx (.black hwl hwr)
      exact ⟨s, hs, hbal.fits_black hrest⟩
  | @blackRight p w _ _ _ _ hw hrest =>
    cases hw with
    | @red wl wr u _ hwl hwr =>
      obtain ⟨s, hs, hbal⟩ := repairRight_balanced .red p hx hwr
      exact ⟨s.below (.right .black wl u), congrArg (Option.map _) hs,
        hbal.fits_below (.blackRight hwl hrest) rfl⟩
    | black hwl hwr =>
      obtain ⟨s, hs, hbal⟩ := repairRight_balanced .black p hx (.black hwl hwr)
      exact ⟨s, hs, hbal.fits_black hrest⟩

end Fits

/-- The repair after deletion never fails on a red-black tree and restores the invariants. -/
theorem deleteFixup_isRedBlack {x : Tree α} {path : List (Frame α)} {c : Color} {n : ℕ}
    (hx : Balanced x c n) (hpath : PathBalanced path .black (n + 1)) :
    ∃ t, deleteFixup x path = some t ∧ t.IsRedBlack := by
  induction path generalizing x c n with
  | nil => exact ⟨_, rfl, hx.paint_black⟩
  | cons f path ih =>
    cases c with
    | red =>
      exact ⟨_, deleteFixup_of_red hx.color_eq _, hpath.plug (hx.paint_of_red hx.color_eq)⟩
    | black =>
      have hcolor : ¬ x.color = .red := by simp [hx.color_eq]
      obtain ⟨s, hs, hfits⟩ := repairRound_fits hx hpath
      rw [deleteFixup, if_neg hcolor, hs]
      cases s with
      | up t =>
        -- the deficit goes on above a black parent and ends at a red one
        rcases hfits with ⟨hbal, hrest⟩ | ⟨hred, hplug⟩
        · exact ih hbal hrest
        · exact ⟨_, deleteFixup_of_red hred path, hplug⟩
      | complete t => exact ⟨_, rfl, Tree.IsRedBlack.paint_black hfits⟩
      | absorbed t => exact ⟨_, rfl, hfits⟩

/-- Replacing a node without a left child by its right subtree keeps the invariants. -/
theorem replace_right_isRedBlack {c d : Color} {a : α} {r : Tree α} {path : List (Frame α)} {n : ℕ}
    (h : Balanced (.node c .nil a r) d n) (hpath : PathBalanced path d n) :
    ∃ t, replace c r path = some t ∧ t.IsRedBlack := by
  cases h with
  | red _ hr => exact ⟨_, rfl, hpath.of_red.plug hr⟩
  | black _ hr => exact deleteFixup_isRedBlack hr hpath

/-- Replacing a node without a right child by its left subtree keeps the invariants. -/
theorem replace_left_isRedBlack {c d : Color} {a : α} {l : Tree α} {path : List (Frame α)} {n : ℕ}
    (h : Balanced (.node c l a .nil) d n) (hpath : PathBalanced path d n) :
    ∃ t, replace c l path = some t ∧ t.IsRedBlack := by
  cases h with
  | red hl _ => exact ⟨_, rfl, hpath.of_red.plug hl⟩
  | black hl _ => exact deleteFixup_isRedBlack hl hpath

/-- The invariants do not depend on the elements. -/
theorem Balanced.change_elem {c d : Color} {l r : Tree α} {a : α} {n : ℕ}
    (h : Balanced (.node c l a r) d n) (b : α) : Balanced (.node c l b r) d n := by
  cases h with
  | red hl hr => exact .red hl hr
  | black hl hr => exact .black hl hr

/-- The path above a node of a balanced tree, and the subtrees below it. -/
theorem PathBalanced.of_plug {t : Tree α} {path : List (Frame α)}
    (h : (RedBlack.plug t path).IsRedBlack) : ∃ c n, Balanced t c n ∧ PathBalanced path c n := by
  induction path generalizing t with
  | nil =>
    obtain ⟨n, hn⟩ := h
    exact ⟨.black, n, hn, .nil⟩
  | cons f path ih =>
    obtain ⟨c, n, hfill, hpath⟩ := ih h
    cases f with
    | left c a r =>
      cases hfill with
      | red ht hr => exact ⟨_, _, ht, .redLeft hr hpath⟩
      | black ht hr => exact ⟨_, _, ht, .blackLeft hr hpath⟩
    | right c l a =>
      cases hfill with
      | red hl ht => exact ⟨_, _, ht, .redRight hl hpath⟩
      | black hl ht => exact ⟨_, _, ht, .blackRight hl hpath⟩

/-- Writing to a node keeps the invariants. -/
theorem Located.write_isRedBlack {z : Located α} (h : z.tree.IsRedBlack) (a : α) :
    (z.write a).IsRedBlack := by
  obtain ⟨c, n, hz, hpath⟩ := PathBalanced.of_plug h
  exact hpath.plug (hz.change_elem a)

/-- The successor takes the place of a node. Seen from the successor's old place the tree is the
same but for one element. -/
theorem Tree.IsRedBlack.of_successor {z y : Located α} (h : z.tree.IsRedBlack)
    (hy : minimumFrom z.right [] = some y) :
    (RedBlack.plug (.node y.color .nil y.elem y.right)
      (y.path ++ .right z.color z.left y.elem :: z.path)).IsRedBlack := by
  obtain ⟨c, n, hz, hpath⟩ := PathBalanced.of_plug h
  obtain ⟨hleft, htree, -⟩ := minimumFrom_spec hy
  rw [← hleft, plug_append]
  change (RedBlack.plug (.node z.color z.left y.elem y.tree) z.path).IsRedBlack
  rw [htree]
  exact hpath.plug (hz.change_elem y.elem)

/-- Deletion from a red-black tree never fails and keeps the invariants. -/
theorem Located.extract_isRedBlack {z : Located α} (h : z.tree.IsRedBlack) :
    ∃ t, z.extract = some t ∧ t.IsRedBlack := by
  obtain ⟨c, n, hz, hpath⟩ := PathBalanced.of_plug h
  unfold Located.extract
  split
  · next hl =>
    rw [hl] at hz
    exact replace_right_isRedBlack hz hpath
  · next hr _ =>
    rw [hr] at hz
    exact replace_left_isRedBlack hz hpath
  · next hr =>
    obtain ⟨y, hy⟩ := Option.isSome_iff_exists.mp (minimumFrom_isSome hr [])
    obtain ⟨d, m, hnode, hbelow⟩ := PathBalanced.of_plug (h.of_successor hy)
    rw [hy]
    exact replace_right_isRedBlack hnode hbelow

end RedBlack
