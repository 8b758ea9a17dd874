import LlmHric.Library.RedBlack
import Mathlib.Data.List.Perm.Basic

/-! The agent, the RIC and the xApp library keep their registries in red-black trees
(`assoc_rb_tree`), and two-way registries in a pair of them (`bimap`). Keys are compared by a
function of the caller that returns 1, 0 or -1; a result of 1 sends a search to the left. Here a
comparison is an `Ordering`, with `lt` for 1. Both containers accept equal keys: a new entry goes
behind the ones with an equal key, and a search stops at the first equal key on its way down. -/

namespace LlmHric.Flexric

open RedBlack

/-- Without the one element that has a value, the other elements are left. -/
theorem filter_ne_of_split {α β : Type} [DecidableEq β] {f : α → β} {pre post : List α} {e : α}
    (h : ((pre ++ e :: post).map f).Nodup) :
    (pre ++ e :: post).filter (fun x => f x ≠ f e) = pre ++ post := by
  have hperm : ((e :: (pre ++ post)).map f).Nodup :=
    (List.perm_middle.map f).nodup_iff.mp h
  rw [List.map_cons, List.nodup_cons, List.mem_map] at hperm
  have hne : ∀ x ∈ pre ++ post, f x ≠ f e := fun x hx heq => hperm.1 ⟨x, hx, heq⟩
  have hpre : pre.filter (fun x => f x ≠ f e) = pre :=
    List.filter_eq_self.mpr fun x hx => by simpa using hne x (List.mem_append_left _ hx)
  have hpost : post.filter (fun x => f x ≠ f e) = post :=
    List.filter_eq_self.mpr fun x hx => by simpa using hne x (List.mem_append_right _ hx)
  rw [List.filter_append, List.filter_cons_of_neg (by simp), hpre, hpost]

/-- A red-black tree of entries with its size counter. -/
structure AssocTree (K V : Type) where
  root : RedBlack.Tree (K × V)
  size : ℕ

namespace AssocTree

variable {K V : Type} (cmp : K → K → Ordering)

/-- `assoc_init` -/
def empty : AssocTree K V := ⟨.nil, 0⟩

/-- The entries in the order of the iterators. -/
def entries (t : AssocTree K V) : List (K × V) := t.root.toList

/-- `assoc_insert` -/
def insert (t : AssocTree K V) (k : K) (v : V) : AssocTree K V :=
  ⟨t.root.insert (fun e => cmp k e.1 == .lt) (k, v), t.size + 1⟩

/-- The entry a search for a key stops at. -/
def lookup (t : AssocTree K V) (k : K) : Option (K × V) :=
  (t.root.locate fun e => cmp k e.1).map (·.elem)

/-- `assoc_extract`: the value of the entry a search stops at, and the tree without it. -/
def extract (t : AssocTree K V) (k : K) : Option (V × AssocTree K V) :=
  match t.root.locate fun e => cmp k e.1 with
  | none => none
  | some z =>
    match z.extract with
    | none => none
    | some root => if t.size = 0 then none else some (z.elem.2, ⟨root, t.size - 1⟩)

/-- `find_if` with a predicate on the key. -/
def findIf (t : AssocTree K V) (p : K → Bool) : Option (K × V) := t.entries.find? fun e => p e.1

/-- `find_if` with a predicate on the key, and `assoc_rb_tree_free_it` of the entry it finds. -/
def freeIf (t : AssocTree K V) (p : K → Bool) : Option (AssocTree K V) :=
  match firstFrom (fun e => p e.1) t.root [] with
  | none => none
  | some z =>
    match z.extract with
    | none => none
    | some root => if t.size = 0 then none else some ⟨root, t.size - 1⟩

/-- `assoc_front`: the first entry in the order of the iterators. -/
def front (t : AssocTree K V) : Option (K × V) := t.entries.head?

/-- `find_if` with a predicate on the key, and a write to the value of the entry it finds. -/
def modifyIf (t : AssocTree K V) (p : K → Bool) (f : V → V) : Option (AssocTree K V) :=
  match firstFrom (fun e => p e.1) t.root [] with
  | none => none
  | some z => some ⟨z.write (z.elem.1, f z.elem.2), t.size⟩

/-- The invariants of the tree: red-black, in order, and counted. -/
structure WellFormed (t : AssocTree K V) : Prop where
  isRedBlack : t.root.IsRedBlack
  sorted : t.entries.Pairwise fun a b => (cmp a.1 b.1).isLE = true
  size_eq : t.size = t.entries.length

variable {cmp}

theorem wellFormed_empty : (empty : AssocTree K V).WellFormed cmp :=
  ⟨⟨0, .nil⟩, .nil, rfl⟩

variable {t : AssocTree K V}

theorem lookup_mem {k : K} {e : K × V} (h : t.lookup cmp k = some e) :
    e ∈ t.entries ∧ cmp k e.1 = .eq := by
  obtain ⟨z, hz, rfl⟩ := Option.map_eq_some_iff.mp h
  obtain ⟨htree, hprobe⟩ := locateFrom_tree hz
  refine ⟨?_, hprobe⟩
  rw [entries, ← plug_nil t.root, ← htree, Located.tree, toList_plug]
  simp

/-- Where a search finds nothing, nothing can be extracted. -/
theorem extract_of_lookup_none {k : K} (h : t.lookup cmp k = none) : t.extract cmp k = none := by
  rw [lookup, Option.map_eq_none_iff] at h
  rw [extract, h]

section Ordered

variable [Std.TransCmp cmp]

theorem WellFormed.goesLeftOnward (h : t.WellFormed cmp) (k : K) :
    GoesLeftOnward (fun e : K × V => cmp k e.1 == .lt) t.root := by
  refine h.sorted.imp ?_
  intro a b hab hka
  rw [beq_iff_eq] at hka ⊢
  exact Std.TransCmp.lt_of_lt_of_isLE hka hab

theorem WellFormed.probesInOrder (h : t.WellFormed cmp) (k : K) :
    ProbesInOrder (fun e : K × V => cmp k e.1) t.root := by
  refine h.sorted.imp ?_
  intro a b hab
  refine ⟨fun hka => Std.TransCmp.lt_of_lt_of_isLE hka hab, fun hkb => ?_⟩
  exact Std.TransCmp.gt_of_gt_of_isGE hkb (Std.OrientedCmp.isGE_of_isLE hab)

/-- A new entry goes behind the entries with a smaller or equal key. -/
theorem entries_insert (h : t.WellFormed cmp) (k : K) (v : V) :
    (t.insert cmp k v).entries = t.entries.filter (fun e => !(cmp k e.1 == .lt)) ++
      (k, v) :: t.entries.filter (fun e => cmp k e.1 == .lt) :=
  toList_insert (h.goesLeftOnward k) (k, v)

theorem perm_insert (h : t.WellFormed cmp) (k : K) (v : V) :
    (t.insert cmp k v).entries.Perm ((k, v) :: t.entries) := by
  rw [entries_insert h]
  refine List.perm_middle.trans (.cons _ ?_)
  refine List.perm_append_comm.trans ?_
  exact List.filter_append_perm (fun e => cmp k e.1 == .lt) t.entries

theorem WellFormed.insert (h : t.WellFormed cmp) (k : K) (v : V) :
    (t.insert cmp k v).WellFormed cmp := by
  refine ⟨h.isRedBlack.insert _ _, ?_, ?_⟩
  · rw [entries_insert h, List.pairwise_append, List.pairwise_cons]
    have hge : ∀ e ∈ t.entries.filter (fun e => !(cmp k e.1 == .lt)), (cmp e.1 k).isLE = true := by
      intro e he
      have hk : cmp k e.1 ≠ .lt := by simpa using (List.mem_filter.mp he).2
      rw [← Std.OrientedCmp.isGE_iff_isLE]
      cases hke : cmp k e.1 with
      | lt => exact absurd hke hk
      | eq => rfl
      | gt => rfl
    have hlt : ∀ e ∈ t.entries.filter (fun e => cmp k e.1 == .lt), (cmp k e.1).isLE = true := by
      intro e he
      have hk : cmp k e.1 = .lt := by simpa using (List.mem_filter.mp he).2
      rw [hk]
      rfl
    refine ⟨h.sorted.filter _, ⟨hlt, h.sorted.filter _⟩, ?_⟩
    intro a ha b hb
    rcases List.mem_cons.mp hb with rfl | hb
    · exact hge a ha
    · exact Std.TransCmp.isLE_trans (hge a ha) (hlt b hb)
  · rw [(perm_insert h k v).length_eq, List.length_cons, ← h.size_eq]
    rfl

theorem WellFormed.lookup_isSome (h : t.WellFormed cmp) {k : K} {e : K × V} (he : e ∈ t.entries)
    (hk : cmp k e.1 = .eq) : ∃ e', t.lookup cmp k = some e' := by
  obtain ⟨z, hz⟩ := Option.isSome_iff_exists.mp (locateFrom_isSome (h.probesInOrder k) he hk)
  exact ⟨z.elem, Option.map_eq_some_iff.mpr ⟨z, hz, rfl⟩⟩

/-- `find_if` returns a least entry among those that satisfy the predicate. -/
theorem WellFormed.findIf_least (h : t.WellFormed cmp) {p : K → Bool} {e : K × V}
    (he : t.findIf p = some e) :
    e ∈ t.entries ∧ p e.1 = true ∧
      ∀ b ∈ t.entries, p b.1 = true → (cmp e.1 b.1).isLE = true := by
  rw [findIf, List.find?_eq_some_iff_append] at he
  obtain ⟨hpe, pre, post, hent, hpre⟩ := he
  refine ⟨by simp [hent], hpe, ?_⟩
  intro b hb hpb
  have hsorted := h.sorted
  rw [hent, List.pairwise_append, List.pairwise_cons] at hsorted
  rw [hent, List.mem_append, List.mem_cons] at hb
  -- before the entry found nothing satisfies the predicate, and what comes after is not less
  rcases hb with hb | rfl | hb
  · simpa [hpb] using hpre b hb
  · have hself : cmp b.1 b.1 = .eq := Std.ReflCmp.compare_self
    rw [hself]
    rfl
  · exact hsorted.2.1.1 b hb

end Ordered

/-- Removing a node of the tree removes its entry and keeps the invariants. -/
theorem WellFormed.extract_at (h : t.WellFormed cmp) {z : Located (K × V)} (hz : z.tree = t.root) :
    ∃ root, z.extract = some root ∧ t.size ≠ 0 ∧
      (⟨root, t.size - 1⟩ : AssocTree K V).WellFormed cmp ∧
      ∃ pre post, t.entries = pre ++ z.elem :: post ∧ root.toList = pre ++ post := by
  obtain ⟨root, hroot, hrb⟩ := Located.extract_isRedBlack (hz ▸ h.isRedBlack)
  obtain ⟨pre, post, hentries, hentries'⟩ := Located.toList_extract hroot
  rw [hz] at hentries
  have hsize : t.size = pre.length + post.length + 1 := by
    rw [h.size_eq, entries, hentries, List.length_append, List.length_cons]
    omega
  refine ⟨root, hroot, by omega, ⟨hrb, ?_, ?_⟩, pre, post, hentries, hentries'⟩
  · have hsub : (pre ++ post).Sublist (pre ++ z.elem :: post) :=
      List.Sublist.append_left (List.sublist_cons_self _ _) _
    have hsorted := h.sorted
    rw [entries, hentries] at hsorted
    rw [entries, hentries']
    exact hsorted.sublist hsub
  · change t.size - 1 = root.toList.length
    rw [hentries', List.length_append, hsize]
    omega

/-- The entry a search stops at is extracted, and nothing else. -/
theorem extract_of_lookup (h : t.WellFormed cmp) {k : K} {e : K × V}
    (he : t.lookup cmp k = some e) :
    ∃ t', t.extract cmp k = some (e.2, t') ∧ t'.WellFormed cmp ∧
      ∃ pre post, t.entries = pre ++ e :: post ∧ t'.entries = pre ++ post := by
  obtain ⟨z, hz, rfl⟩ := Option.map_eq_some_iff.mp he
  obtain ⟨htree, -⟩ := locateFrom_tree hz
  obtain ⟨root, hroot, hne, hwf, hent⟩ := h.extract_at htree
  refine ⟨⟨root, t.size - 1⟩, ?_, hwf, hent⟩
  rw [extract, hz]
  simp only [hroot, if_neg hne]

/-- The entry that `find_if` returns is freed, and nothing else. -/
theorem freeIf_of_findIf (h : t.WellFormed cmp) {p : K → Bool} {e : K × V}
    (he : t.findIf p = some e) :
    ∃ t', t.freeIf p = some t' ∧ t'.WellFormed cmp ∧
      ∃ pre post, t.entries = pre ++ e :: post ∧ t'.entries = pre ++ post := by
  rw [findIf, entries, ← firstFrom_elem _ t.root []] at he
  obtain ⟨z, hz, rfl⟩ := Option.map_eq_some_iff.mp he
  obtain ⟨root, hroot, hne, hwf, hent⟩ := h.extract_at (firstFrom_tree hz)
  refine ⟨⟨root, t.size - 1⟩, ?_, hwf, hent⟩
  rw [freeIf, hz]
  simp only [hroot, if_neg hne]

/-- The value of the entry that `find_if` returns is changed, and nothing else. -/
theorem modifyIf_of_findIf (h : t.WellFormed cmp) {p : K → Bool} {e : K × V}
    (he : t.findIf p = some e) (f : V → V) :
    ∃ t', t.modifyIf p f = some t' ∧ t'.WellFormed cmp ∧
      ∃ pre post, t.entries = pre ++ e :: post ∧ t'.entries = pre ++ (e.1, f e.2) :: post := by
  rw [findIf, entries, ← firstFrom_elem _ t.root []] at he
  obtain ⟨z, hz, rfl⟩ := Option.map_eq_some_iff.mp he
  have htree : z.tree = t.root := firstFrom_tree hz
  obtain ⟨pre, post, hpre, hpost⟩ := z.toList_write (z.elem.1, f z.elem.2)
  rw [htree] at hpre
  refine ⟨⟨z.write (z.elem.1, f z.elem.2), t.size⟩, ?_, ⟨?_, ?_, ?_⟩, pre, post, hpre, hpost⟩
  · rw [modifyIf, hz]
  · exact Located.write_isRedBlack (htree ▸ h.isRedBlack) _
  · -- the order is one of keys, and these are the same
    have hsorted := h.sorted
    rw [entries, hpre, ← List.pairwise_map (f := Prod.fst) (R := fun a b => (cmp a b).isLE = true)]
      at hsorted
    rw [entries, hpost, ← List.pairwise_map (f := Prod.fst) (R := fun a b => (cmp a b).isLE = true)]
    simpa using hsorted
  · change t.size = (z.write _).toList.length
    rw [h.size_eq, entries, hpre, hpost]
    simp

end AssocTree

/-- Two trees that map the keys of either side to those of the other. -/
structure BiMap (K₁ K₂ : Type) where
  left : AssocTree K₁ K₂
  right : AssocTree K₂ K₁

namespace BiMap

variable {K₁ K₂ : Type} (cmp₁ : K₁ → K₁ → Ordering) (cmp₂ : K₂ → K₂ → Ordering)

/-- `bi_map_init` -/
def empty : BiMap K₁ K₂ := ⟨.empty, .empty⟩

/-- `bi_map_insert`; the assertions compare a key with its own copy. -/
def insert (m : BiMap K₁ K₂) (k₁ : K₁) (k₂ : K₂) : BiMap K₁ K₂ :=
  ⟨m.left.insert cmp₁ k₁ k₂, m.right.insert cmp₂ k₂ k₁⟩

/-- `bi_map_extract_right`: the left key and the map without the pair. -/
def extractRight (m : BiMap K₁ K₂) (key₂ : K₂) : Option (K₁ × BiMap K₁ K₂) :=
  match m.right.extract cmp₂ key₂ with
  | none => none
  | some (key₁, right) =>
    -- the left tree is searched by key, so it may give up another pair with the same key
    match m.left.extract cmp₁ key₁ with
    | none => none
    | some (key₃, left) =>
      if cmp₂ key₂ key₃ = .eq ∧ left.size = right.size then some (key₁, ⟨left, right⟩) else none

/-- The invariants of both trees, and that they hold the same pairs. -/
structure WellFormed (m : BiMap K₁ K₂) : Prop where
  left : m.left.WellFormed cmp₁
  right : m.right.WellFormed cmp₂
  perm : m.right.entries.Perm (m.left.entries.map Prod.swap)

variable {cmp₁ cmp₂} {m : BiMap K₁ K₂}

theorem wellFormed_empty : (empty : BiMap K₁ K₂).WellFormed cmp₁ cmp₂ :=
  ⟨AssocTree.wellFormed_empty, AssocTree.wellFormed_empty, .nil⟩

theorem WellFormed.mem_iff (h : m.WellFormed cmp₁ cmp₂) {k₁ : K₁} {k₂ : K₂} :
    (k₂, k₁) ∈ m.right.entries ↔ (k₁, k₂) ∈ m.left.entries := by
  rw [h.perm.mem_iff, List.mem_map]
  constructor
  · rintro ⟨⟨a, b⟩, hab, heq⟩
    cases heq
    exact hab
  · intro hmem
    exact ⟨_, hmem, rfl⟩

theorem WellFormed.insert [Std.TransCmp cmp₁] [Std.TransCmp cmp₂]
    (h : m.WellFormed cmp₁ cmp₂) (k₁ : K₁) (k₂ : K₂) :
    (m.insert cmp₁ cmp₂ k₁ k₂).WellFormed cmp₁ cmp₂ := by
  refine ⟨h.left.insert k₁ k₂, h.right.insert k₂ k₁, ?_⟩
  calc (m.right.insert cmp₂ k₂ k₁).entries.Perm ((k₂, k₁) :: m.right.entries) :=
        AssocTree.perm_insert h.right k₂ k₁
    _ |>.Perm (((k₁, k₂) :: m.left.entries).map Prod.swap) := h.perm.cons _
    _ |>.Perm ((m.left.insert cmp₁ k₁ k₂).entries.map Prod.swap) :=
        ((AssocTree.perm_insert h.left k₁ k₂).map _).symm

/-- The pair is extracted when the search for the left key stops at an entry for the same right
key. -/
theorem extractRight_of_lookup (h : m.WellFormed cmp₁ cmp₂) {k₁ : K₁} {k₂ a₂ : K₂} {b : K₁ × K₂}
    (hr : m.right.lookup cmp₂ k₂ = some (a₂, k₁)) (hl : m.left.lookup cmp₁ k₁ = some b)
    (hb : cmp₂ k₂ b.2 = .eq) :
    ∃ m', m.extractRight cmp₁ cmp₂ k₂ = some (k₁, m') ∧
      m'.left.WellFormed cmp₁ ∧ m'.right.WellFormed cmp₂ ∧
      (∃ pre post, m.left.entries = pre ++ b :: post ∧ m'.left.entries = pre ++ post) ∧
      ∃ pre post, m.right.entries = pre ++ (a₂, k₁) :: post ∧ m'.right.entries = pre ++ post := by
  obtain ⟨right, hright, hrwf, rpre, rpost, hrent, hrent'⟩ := AssocTree.extract_of_lookup h.right hr
  obtain ⟨left, hleft, hlwf, lpre, lpost, hlent, hlent'⟩ := AssocTree.extract_of_lookup h.left hl
  -- both trees lose one entry
  have hsize : left.size = right.size := by
    have hlen := h.perm.length_eq
    rw [List.length_map, hlent, hrent] at hlen
    rw [hlwf.size_eq, hrwf.size_eq, hlent', hrent']
    simp only [List.length_append, List.length_cons] at hlen ⊢
    omega
  refine ⟨⟨left, right⟩, ?_, hlwf, hrwf, ⟨lpre, lpost, hlent, hlent'⟩, rpre, rpost, hrent, hrent'⟩
  have hok : cmp₂ k₂ b.2 = .eq ∧ left.size = right.size := ⟨hb, hsize⟩
  simp only [extractRight, hright, hleft, if_pos hok]

/-- The comparison of the two right keys fails when the search for the left key stops at an entry
for another right key. -/
theorem extractRight_eq_none (h : m.WellFormed cmp₁ cmp₂) {k₁ : K₁} {k₂ a₂ : K₂} {b : K₁ × K₂}
    (hr : m.right.lookup cmp₂ k₂ = some (a₂, k₁)) (hl : m.left.lookup cmp₁ k₁ = some b)
    (hb : cmp₂ k₂ b.2 ≠ .eq) : m.extractRight cmp₁ cmp₂ k₂ = none := by
  obtain ⟨right, hright, -⟩ := AssocTree.extract_of_lookup h.right hr
  obtain ⟨left, hleft, -⟩ := AssocTree.extract_of_lookup h.left hl
  simp [extractRight, hright, hleft, hb]

/-- Extraction of one and the same pair from both trees keeps the invariants. -/
theorem WellFormed.of_extract (h : m.WellFormed cmp₁ cmp₂) {m' : BiMap K₁ K₂} {k₁ : K₁} {k₂ : K₂}
    (hleft : m'.left.WellFormed cmp₁) (hright : m'.right.WellFormed cmp₂)
    (hl : ∃ pre post, m.left.entries = pre ++ (k₁, k₂) :: post ∧ m'.left.entries = pre ++ post)
    (hr : ∃ pre post, m.right.entries = pre ++ (k₂, k₁) :: post ∧ m'.right.entries = pre ++ post) :
    m'.WellFormed cmp₁ cmp₂ := by
  obtain ⟨lpre, lpost, hlent, hlent'⟩ := hl
  obtain ⟨rpre, rpost, hrent, hrent'⟩ := hr
  refine ⟨hleft, hright, ?_⟩
  have hperm := h.perm
  rw [hlent, hrent, List.map_append, List.map_cons] at hperm
  rw [hlent', hrent', List.map_append]
  exact (List.perm_middle.symm.trans (hperm.trans List.perm_middle)).cons_inv

/-- A pair whose two keys are the only ones of their kind is extracted from both trees. -/
theorem WellFormed.extractRight_of_unique [Std.TransCmp cmp₁] [Std.TransCmp cmp₂]
    (h : m.WellFormed cmp₁ cmp₂) {k₁ : K₁} {k₂ : K₂} (hmem : (k₁, k₂) ∈ m.left.entries)
    (hl : ∀ e ∈ m.left.entries, cmp₁ k₁ e.1 = .eq → e = (k₁, k₂))
    (hr : ∀ e ∈ m.left.entries, cmp₂ k₂ e.2 = .eq → e = (k₁, k₂)) :
    ∃ m', m.extractRight cmp₁ cmp₂ k₂ = some (k₁, m') ∧ m'.WellFormed cmp₁ cmp₂ ∧
      ∃ pre post, m.left.entries = pre ++ (k₁, k₂) :: post ∧ m'.left.entries = pre ++ post := by
  obtain ⟨⟨a₁, a₂⟩, hleft⟩ := h.left.lookup_isSome hmem Std.ReflCmp.compare_self
  obtain ⟨⟨b₂, b₁⟩, hright⟩ :=
    h.right.lookup_isSome (h.mem_iff.mpr hmem) Std.ReflCmp.compare_self
  obtain ⟨ha, hcmpa⟩ := AssocTree.lookup_mem hleft
  obtain ⟨hb, hcmpb⟩ := AssocTree.lookup_mem hright
  obtain ⟨rfl, rfl⟩ := Prod.mk.inj (hl _ ha hcmpa)
  obtain ⟨rfl, rfl⟩ := Prod.mk.inj (hr _ (h.mem_iff.mp hb) hcmpb)
  obtain ⟨m', hextract, hlwf, hrwf, hl', hr'⟩ :=
    extractRight_of_lookup h hright hleft Std.ReflCmp.compare_self
  exact ⟨m', hextract, h.of_extract hlwf hrwf hl' hr', hl'⟩

end BiMap

end LlmHric.Flexric
