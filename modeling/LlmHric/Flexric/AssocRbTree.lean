import LlmHric.Library.LinkedTrees

/-! An `assoc_rb_tree_t` keeps its nodes in the memory of the process. Every node has the addresses
of its parent and of its children; a dummy node, which is black, stands for those that are missing.
Its own parent is written when it takes the place of a node that is removed, and read by the repair
that follows. The branches of the repairs for a left and a right child are mirror images, and so are
the two rotations: each is one definition with the side as a parameter. A comparison is an
`Ordering`, with `lt` for 1. -/

namespace LlmHric.Flexric

open OwnedMemory RedBlack

/-- `assoc_node_t`; the dummy node has no key and no value. -/
structure AssocNode (K V : Type) where
  key : Option K
  value : Option V
  parent : ℕ
  left : ℕ
  right : ℕ
  color : Color

namespace AssocNode

variable {K V : Type} (n : AssocNode K V)

def child (side : Side) : ℕ :=
  match side with
  | .left => n.left
  | .right => n.right

def setChild (side : Side) (p : ℕ) : AssocNode K V :=
  match side with
  | .left => { n with left := p }
  | .right => { n with right := p }

def setParent (p : ℕ) : AssocNode K V := { n with parent := p }

def setColor (c : Color) : AssocNode K V := { n with color := c }

@[simp] theorem parent_setChild (side : Side) (p : ℕ) : (n.setChild side p).parent = n.parent := by
  cases side <;> rfl

@[simp] theorem parent_setParent (p : ℕ) : (n.setParent p).parent = p := rfl

@[simp] theorem child_setParent (side : Side) (p : ℕ) :
    (n.setParent p).child side = n.child side := by
  cases side <;> rfl

end AssocNode

/-- `assoc_rb_tree_t`, with the memory that its nodes are in. -/
structure AssocRbTree (K V : Type) where
  mem : Memory ℕ (AssocNode K V)
  dummy : ℕ
  root : ℕ
  size : ℕ

/-- `NULL`. -/
def null : ℕ := 0

/-- `init_node`, with the address that `malloc` gives; `none` if the assertion fails. -/
def initNode {K V : Type} (mem : Memory ℕ (AssocNode K V)) (p : ℕ) (key : Option K)
    (value : Option V) : Option (Memory ℕ (AssocNode K V)) :=
  if p = null then none else alloc mem p ⟨key, value, null, null, null, .red⟩

/-- A node as an iterator meets it. -/
structure TreeEntry (K V : Type) where
  it : ℕ
  key : K
  value : V
  deriving DecidableEq

namespace AssocRbTree

variable {K V : Type}

/-- `assoc_rb_tree_init`, with the address of the dummy node. -/
def init (dummy : ℕ) : Option (AssocRbTree K V) := do
  let mem ← initNode (fun _ => none) dummy none none
  let mem ← write mem dummy (·.setColor .black)
  some { mem, dummy, root := dummy, size := 0 }

section Links

variable (t : AssocRbTree K V)

/-- `create_node_rb_tree`, with the address of the node. -/
def createNode (p : ℕ) (key : K) (value : V) : Option (AssocRbTree K V) := do
  let mem ← initNode t.mem p (some key) (some value)
  let mem ← write mem p (·.setParent t.dummy)
  let mem ← write mem p (·.setChild .left t.dummy)
  let mem ← write mem p (·.setChild .right t.dummy)
  some { t with mem }

/-- What the rotations and `transplant` do first: a node is replaced below its parent. -/
def replaceChild (u v : ℕ) : Option (AssocRbTree K V) := do
  let uNode ← t.mem u
  if uNode.parent = t.dummy then some { t with root := v }
  else do
    let pNode ← t.mem uNode.parent
    let side : Side := if u = pNode.left then .left else .right
    let mem ← write t.mem uNode.parent (·.setChild side v)
    some { t with mem }

/-- What the rotations do with the subtree between the two nodes: its parent is written, unless it
is the dummy node. -/
def setParentOf (mem : Memory ℕ (AssocNode K V)) (p parent : ℕ) :
    Option (Memory ℕ (AssocNode K V)) :=
  if p = t.dummy then some mem else write mem p (·.setParent parent)

/-- A rotation; the node goes down on the side. `none` if the assertion fails. -/
def rotate (side : Side) (x : ℕ) : Option (AssocRbTree K V) := do
  let xNode ← t.mem x
  let y := xNode.child side.other
  if y = t.dummy then none
  else do
    let yNode ← t.mem y
    let mem ← write t.mem x (·.setChild side.other (yNode.child side))
    let yNode ← mem y
    let mem ← t.setParentOf mem (yNode.child side) x
    let xNode ← mem x
    let mem ← write mem y (·.setParent xNode.parent)
    let t ← replaceChild { t with mem } x y
    let mem ← write t.mem y (·.setChild side x)
    let mem ← write mem x (·.setParent y)
    some { t with mem }

/-- `left_rotate`. -/
def leftRotate (x : ℕ) : Option (AssocRbTree K V) := t.rotate .left x

/-- `right_rotate`. -/
def rightRotate (x : ℕ) : Option (AssocRbTree K V) := t.rotate .right x

/-- `transplant`; `none` if the assertion fails. -/
def transplant (u v : ℕ) : Option (AssocRbTree K V) :=
  if u = t.dummy then none
  else do
    let t ← t.replaceChild u v
    let uNode ← t.mem u
    let mem ← write t.mem v (·.setParent uNode.parent)
    some { t with mem }

/-- The loop of `minimum`. -/
def minimumLoop : ℕ → ℕ → Option ℕ
  | 0, _ => none
  | fuel + 1, x => do
    let n ← t.mem x
    if n.left = t.dummy then some x else minimumLoop fuel n.left

/-- `minimum`. The way down is not longer than there are nodes. -/
def minimum (x : ℕ) : Option ℕ :=
  if x = t.dummy then some t.dummy else t.minimumLoop (t.size + 1) x

end Links

/-! ### Insertion -/

/-- Case 2 of `insert_fixup`: an inner grandchild goes up, and its parent is the node then. -/
def rotateInner (side : Side) (t : AssocRbTree K V) (z parent : ℕ) :
    Option (AssocRbTree K V × ℕ × ℕ) := do
  let pNode ← t.mem parent
  if z = pNode.child side.other then do
    let t ← t.rotate side parent
    let zNode ← t.mem parent
    some (t, parent, zNode.parent)
  else some (t, z, parent)

/-- Case 3 of `insert_fixup`: the parent goes up. -/
def rotateOuter (side : Side) (t : AssocRbTree K V) (parent grandParent : ℕ) :
    Option (AssocRbTree K V) := do
  let mem ← write t.mem parent (·.setColor .black)
  let mem ← write mem grandParent (·.setColor .red)
  rotate { t with mem } side.other grandParent

/-- A round of `insert_fixup` whose parent is on a side of the grandparent. -/
def insertFixupRound (side : Side) (t : AssocRbTree K V) (z parent grandParent : ℕ) :
    Option (AssocRbTree K V × ℕ) := do
  let gNode ← t.mem grandParent
  let uncle := gNode.child side.other
  let uNode ← t.mem uncle
  if uNode.color = .red then do
    -- case 1
    let mem ← write t.mem parent (·.setColor .black)
    let mem ← write mem uncle (·.setColor .black)
    let mem ← write mem grandParent (·.setColor .red)
    some ({ t with mem }, grandParent)
  else do
    let (t, z, parent) ← rotateInner side t z parent
    let t ← rotateOuter side t parent grandParent
    some (t, z)

/-- `insert_fixup`. Every round ends the loop or goes up. -/
def insertFixup : ℕ → AssocRbTree K V → ℕ → Option (AssocRbTree K V)
  | 0, _, _ => none
  | fuel + 1, t, z => do
    let zNode ← t.mem z
    let parent := zNode.parent
    let pNode ← t.mem parent
    if pNode.color = .red then do
      let grandParent := pNode.parent
      let gNode ← t.mem grandParent
      let side : Side := if parent = gNode.left then .left else .right
      let (t, z) ← insertFixupRound side t z parent grandParent
      insertFixup fuel t z
    else do
      let mem ← write t.mem t.root (·.setColor .black)
      some { t with mem }

section Keys

variable (cmp : K → K → Ordering)

/-- The loop of `assoc_rb_tree_insert`: the node below which there is a place. -/
def findLeaf (t : AssocRbTree K V) (key : K) : ℕ → ℕ → ℕ → Option ℕ
  | 0, _, _ => none
  | fuel + 1, x, y =>
    if x = t.dummy then some y
    else do
      let n ← t.mem x
      let k ← n.key
      if cmp key k = .lt then findLeaf t key fuel n.left x else findLeaf t key fuel n.right x

/-- The new node is put below the one that was found, or becomes the root. -/
def linkLeaf (t : AssocRbTree K V) (z : ℕ) (key : K) (y : ℕ) : Option (AssocRbTree K V) := do
  let mem ← write t.mem z (·.setParent y)
  if y = t.dummy then some { t with mem, root := z }
  else do
    let yNode ← mem y
    let k ← yNode.key
    let mem ← write mem y (·.setChild (if cmp key k = .lt then .left else .right) z)
    some { t with mem }

/-- `assoc_rb_tree_insert`, with the address of the new node. The assertions about the new node say
what has just been written. -/
def insert (t : AssocRbTree K V) (z : ℕ) (key : K) (value : V) : Option (AssocRbTree K V) := do
  let t ← t.createNode z key value
  let y ← findLeaf cmp t key (t.size + 1) t.root t.dummy
  let t ← linkLeaf cmp t z key y
  let t ← insertFixup (t.size + 1) t z
  some { t with size := t.size + 1 }

end Keys

/-! ### Deletion -/

/-- Case 1 of `delete_fixup`, for a node on a side whose sibling is red, and the sibling that is
black then. -/
def recolorSibling (side : Side) (t : AssocRbTree K V) (x w : ℕ) :
    Option (AssocRbTree K V × ℕ) := do
  let wNode ← t.mem w
  if wNode.color = .red then do
    let mem ← write t.mem w (·.setColor .black)
    let xNode ← mem x
    let mem ← write mem xNode.parent (·.setColor .red)
    let t ← rotate { t with mem } side xNode.parent
    let xNode ← t.mem x
    let pNode ← t.mem xNode.parent
    some (t, pNode.child side.other)
  else some (t, w)

/-- Case 3 of `delete_fixup`, for a sibling whose far child is black, and the sibling whose far
child is red then. `none` if an assertion fails. -/
def turnSibling (side : Side) (t : AssocRbTree K V) (x w : ℕ) : Option (AssocRbTree K V × ℕ) := do
  let wNode ← t.mem w
  let farNode ← t.mem (wNode.child side.other)
  if farNode.color = .black then do
    let nearNode ← t.mem (wNode.child side)
    if wNode.color = .black ∧ nearNode.color = .red then do
      let mem ← write t.mem (wNode.child side) (·.setColor .black)
      let mem ← write mem w (·.setColor .red)
      let t ← rotate { t with mem } side.other w
      let xNode ← t.mem x
      let pNode ← t.mem xNode.parent
      some (t, pNode.child side.other)
    else none
  else some (t, w)

/-- Case 4 of `delete_fixup`. `none` if an assertion fails. -/
def absorbInSibling (side : Side) (t : AssocRbTree K V) (x w : ℕ) : Option (AssocRbTree K V) := do
  let wNode ← t.mem w
  let farNode ← t.mem (wNode.child side.other)
  if wNode.color = .black ∧ farNode.color = .red then do
    let xNode ← t.mem x
    let pNode ← t.mem xNode.parent
    let mem ← write t.mem w (·.setColor pNode.color)
    let mem ← write mem xNode.parent (·.setColor .black)
    let mem ← write mem (wNode.child side.other) (·.setColor .black)
    rotate { t with mem } side xNode.parent
  else none

/-- The children of a node are both black. -/
def bothBlack (t : AssocRbTree K V) (w : ℕ) : Option Bool := do
  let wNode ← t.mem w
  let leftNode ← t.mem wNode.left
  if leftNode.color = .black then do
    let rightNode ← t.mem wNode.right
    some (rightNode.color == .black)
  else some false

/-- Cases 2 to 4 of `delete_fixup`, and the node that the loop goes on with; `none` if an assertion
fails. -/
def repairAtSibling (side : Side) (t : AssocRbTree K V) (x w : ℕ) :
    Option (AssocRbTree K V × ℕ) := do
  let wNode ← t.mem w
  if wNode.color = .black then do
    if ← t.bothBlack w then do
      -- case 2
      let mem ← write t.mem w (·.setColor .red)
      let xNode ← mem x
      some ({ t with mem }, xNode.parent)
    else do
      let (t, w) ← turnSibling side t x w
      let t ← absorbInSibling side t x w
      some (t, t.root)
  else none

/-- A round of `delete_fixup` for a node on a side of its parent. -/
def deleteFixupRound (side : Side) (t : AssocRbTree K V) (x : ℕ) :
    Option (AssocRbTree K V × ℕ) := do
  let xNode ← t.mem x
  let pNode ← t.mem xNode.parent
  let (t, w) ← recolorSibling side t x (pNode.child side.other)
  repairAtSibling side t x w

/-- `delete_fixup`. Every round ends the loop or goes up. -/
def deleteFixup : ℕ → AssocRbTree K V → ℕ → Option (AssocRbTree K V)
  | 0, _, _ => none
  | fuel + 1, t, x => do
    let xNode ← t.mem x
    if x ≠ t.root ∧ xNode.color = .black then do
      let pNode ← t.mem xNode.parent
      let side : Side := if x = pNode.left then .left else .right
      let (t, x) ← deleteFixupRound side t x
      deleteFixup fuel t x
    else do
      let mem ← write t.mem x (·.setColor .black)
      some { t with mem }

/-- The first node of the right subtree of a node is taken out of it, and the rest becomes its right
subtree. -/
def detachSuccessor (t : AssocRbTree K V) (z y : ℕ) : Option (AssocRbTree K V) := do
  let yNode ← t.mem y
  if yNode.parent = z then do
    let mem ← write t.mem yNode.right (·.setParent y)
    some { t with mem }
  else do
    let t ← t.transplant y yNode.right
    let zNode ← t.mem z
    let mem ← write t.mem y (·.setChild .right zNode.right)
    let mem ← write mem zNode.right (·.setParent y)
    some { t with mem }

/-- The node is replaced by the first one of its right subtree. -/
def replaceBySuccessor (t : AssocRbTree K V) (z y : ℕ) : Option (AssocRbTree K V) := do
  let t ← t.detachSuccessor z y
  let t ← t.transplant z y
  let zNode ← t.mem z
  let mem ← write t.mem y (·.setChild .left zNode.left)
  let mem ← write mem zNode.left (·.setParent y)
  let mem ← write mem y (·.setColor zNode.color)
  some { t with mem }

/-- What `assoc_rb_tree_extract_node` does before the repair: the tree without the node, the subtree
that has moved up, and the colour that is missing above it. -/
def unlink (t : AssocRbTree K V) (z : ℕ) : Option (AssocRbTree K V × ℕ × Color) := do
  let zNode ← t.mem z
  if zNode.left = t.dummy then do
    let t ← t.transplant z zNode.right
    some (t, zNode.right, zNode.color)
  else if zNode.right = t.dummy then do
    let t ← t.transplant z zNode.left
    some (t, zNode.left, zNode.color)
  else do
    let y ← t.minimum zNode.right
    let yNode ← t.mem y
    let t ← t.replaceBySuccessor z y
    some (t, yNode.right, yNode.color)

/-- `assoc_rb_tree_extract_node`; `none` if the assertion fails. -/
def extractNode (t : AssocRbTree K V) (z : ℕ) : Option (AssocRbTree K V) :=
  if z = t.dummy then none
  else do
    let (t, x, originalColor) ← t.unlink z
    if originalColor = .black then deleteFixup (t.size + 1) t x else some t

section Keys

variable (cmp : K → K → Ordering)

/-- `find_rb_tree`. The way down is not longer than there are nodes. -/
def findRbTree (t : AssocRbTree K V) (key : K) : ℕ → ℕ → Option ℕ
  | 0, _ => none
  | fuel + 1, node =>
    if node = t.dummy then some node
    else do
      let n ← t.mem node
      let k ← n.key
      match cmp key k with
      | .lt => findRbTree t key fuel n.left
      | .gt => findRbTree t key fuel n.right
      | .eq => some node

/-- What `assoc_rb_tree_extract` and `assoc_rb_tree_free_it` do with a node: its key and its value
are read when it is out of the tree, and it is freed. -/
def takeOut (t : AssocRbTree K V) (z : ℕ) : Option (TreeEntry K V × AssocRbTree K V) := do
  let t ← t.extractNode z
  let zNode ← t.mem z
  let key ← zNode.key
  let value ← zNode.value
  let mem ← free t.mem z
  if t.size = 0 then none else some (⟨z, key, value⟩, { t with mem, size := t.size - 1 })

/-- `assoc_rb_tree_extract`; `none` if an assertion fails. -/
def extract (t : AssocRbTree K V) (key : K) : Option (V × AssocRbTree K V) := do
  let z ← findRbTree cmp t key (t.size + 1) t.root
  if z = t.dummy then none
  else do
    let (entry, t) ← t.takeOut z
    some (entry.value, t)

end Keys

/-- `assoc_rb_tree_free_it`, with the key and the value that `free_func` gets; `none` if an
assertion fails. -/
def freeIt (t : AssocRbTree K V) (it : ℕ) : Option ((K × V) × AssocRbTree K V) :=
  if it = t.dummy then none
  else do
    let (entry, t) ← t.takeOut it
    some ((entry.key, entry.value), t)

section Iteration

variable (t : AssocRbTree K V)

/-- `assoc_rb_tree_front`. -/
def front : Option ℕ := t.minimum t.root

/-- `assoc_rb_tree_end`. -/
def endIt : ℕ := t.dummy

/-- The loop of `assoc_rb_tree_next`. The way up is not longer than there are nodes. -/
def climb : ℕ → ℕ → Option ℕ
  | 0, _ => none
  | fuel + 1, node => do
    let n ← t.mem node
    if n.parent = t.dummy then some n.parent
    else do
      let pNode ← t.mem n.parent
      if pNode.left ≠ node then climb fuel n.parent else some n.parent

/-- `assoc_rb_tree_next`; `none` if the assertion fails. -/
def next (it : ℕ) : Option ℕ :=
  if it = t.dummy then none
  else do
    let n ← t.mem it
    if n.right ≠ t.dummy then t.minimum n.right else t.climb (t.size + 1) it

/-- `assoc_rb_tree_key`. -/
def key (it : ℕ) : Option K := if it = t.dummy then none else (t.mem it).bind AssocNode.key

/-- `assoc_rb_tree_value`. -/
def value (it : ℕ) : Option V := if it = t.dummy then none else (t.mem it).bind AssocNode.value

/-- The loop in which the callers go over a tree. -/
def visitLoop : ℕ → ℕ → Option (List (TreeEntry K V))
  | 0, _ => none
  | fuel + 1, it =>
    if it = t.endIt then some []
    else do
      let key ← t.key it
      let value ← t.value it
      let next ← t.next it
      let entries ← visitLoop fuel next
      some (⟨it, key, value⟩ :: entries)

/-- The nodes from the front to the end. -/
def visit : Option (List (TreeEntry K V)) := do
  let it ← t.front
  t.visitLoop (t.size + 1) it

end Iteration

end AssocRbTree

end LlmHric.Flexric
