import LlmHric.Library.Refinement
import LlmHric.Flexric.AssocRbIteration

/-! Whatever is inserted, extracted and freed, the nodes of an associative tree stand for a
red-black tree whose elements are the entries in the order of their keys. The keys that are inserted
are new, the address of a new node is not in use, and an iterator that is freed is that of an entry;
a key that is extracted need not be there, since the assertion that fails then is what the entries
say. -/

namespace LlmHric.Flexric

open OwnedMemory RedBlack Refinement

/-- The operations on an associative tree. A node that is inserted gets the address that `malloc`
gives. -/
inductive AssocRbOp (K V : Type) where
  | insert (it : ℕ) (key : K) (value : V)
  | extract (key : K)
  | freeIt (it : ℕ)
  | visit

/-- What the operations return; a node that is freed goes to `free_func`. -/
inductive AssocRbOut (K V : Type) where
  | inserted
  | extracted (value : V)
  | freed (key : K) (value : V)
  | visited (entries : List (TreeEntry K V))

variable {K V : Type}

/-- The first entry of a kind, and the entries of other kinds. -/
def takeEntry (p : TreeEntry K V → Bool) (s : List (TreeEntry K V)) :
    Option (TreeEntry K V × List (TreeEntry K V)) :=
  (s.find? p).map fun e => (e, s.filter (!p ·))

namespace AssocRbOp

variable (cmp : K → K → Ordering)

/-- An operation on the nodes; `none` if an assertion fails, or if an address without a node is
used. -/
def step (t : AssocRbTree K V) : AssocRbOp K V → Option (AssocRbOut K V × AssocRbTree K V)
  | insert it key value => (t.insert cmp it key value).map (.inserted, ·)
  | extract key => (t.extract cmp key).map fun next => (.extracted next.1, next.2)
  | freeIt it => (t.freeIt it).map fun next => (.freed next.1.1 next.1.2, next.2)
  | visit => t.visit.map fun entries => (.visited entries, t)

/-- An operation on the entries in the order of their keys; `none` if there is nothing to take
out. -/
def specStep (s : List (TreeEntry K V)) :
    AssocRbOp K V → Option (AssocRbOut K V × List (TreeEntry K V))
  | insert it key value => some (.inserted, s.filter (fun e => !(cmp key e.key == .lt)) ++
      ⟨it, key, value⟩ :: s.filter (fun e => cmp key e.key == .lt))
  | extract key => (takeEntry (cmp key ·.key == .eq) s).map fun next =>
      (.extracted next.1.value, next.2)
  | freeIt it => (takeEntry (·.it == it) s).map fun next =>
      (.freed next.1.key next.1.value, next.2)
  | visit => some (.visited s, s)

/-- A key that is inserted is new, and so is its address; an iterator that is freed is that of an
entry. -/
def Allowed (s : List (TreeEntry K V)) (t : AssocRbTree K V) : AssocRbOp K V → Prop
  | insert it key _ => it ≠ null ∧ t.mem it = none ∧ ∀ e ∈ s, cmp key e.key ≠ .eq
  | freeIt it => ∃ e ∈ s, e.it = it
  | extract _ | visit => True

instance (s : List (TreeEntry K V)) (t : AssocRbTree K V) : DecidablePred (Allowed cmp s t)
  | insert _ _ _ => inferInstanceAs (Decidable (_ ∧ _ ∧ _))
  | freeIt _ => inferInstanceAs (Decidable (∃ _ ∈ _, _))
  | extract _ | visit => inferInstanceAs (Decidable True)

end AssocRbOp

/-- The nodes stand for a red-black tree, whose elements are the entries in the order of their
keys. -/
structure AssocRbTree.Holds (cmp : K → K → Ordering) (s : List (TreeEntry K V))
    (t : AssocRbTree K V) : Prop where
  stands : ∃ d tree, AssocRbTree.Stands t d tree 0 ∧ tree.IsRedBlack ∧ tree.toList = s
  sorted : s.Pairwise fun a b => cmp a.key b.key = .lt
  size : t.size = s.length

namespace AssocRbTree

variable {cmp : K → K → Ordering} {s : List (TreeEntry K V)} {t : AssocRbTree K V}

theorem holds_init {dummy : ℕ} (h : init dummy = some t) : t.Holds cmp [] := by
  rw [init, initNode] at h
  by_cases hnull : dummy = null
  · rw [if_pos hnull] at h
    cases h
  · rw [if_neg hnull] at h
    have hempty : Owns (fun _ : ℕ => (none : Option (AssocNode K V))) 0 := owns_zero
    obtain ⟨mem, halloc, howns⟩ := hempty.alloc rfl ⟨none, none, null, null, null, .red⟩
    obtain ⟨mem', hwrite, howns'⟩ := howns.write (·.setColor .black)
    rw [halloc, Option.bind_eq_bind, Option.bind_some, hwrite, Option.bind_some] at h
    cases h
    exact ⟨⟨_, .nil, ⟨rfl, howns', rfl⟩, ⟨0, .nil⟩, rfl⟩, .nil, rfl⟩

/-- The iterators of the entries differ. -/
theorem Holds.nodup (h : t.Holds cmp s) : (s.map TreeEntry.it).Nodup := by
  obtain ⟨d, tree, hstands, -, rfl⟩ := h.stands
  have hnodes := hstands.owns.tail.nodup
  rw [add_zero, Linking.map_fst_nodes] at hnodes
  exact Multiset.coe_nodup.mp hnodes

/-- One entry of a kind is taken out from between the others. -/
theorem takeEntry_eq {p : TreeEntry K V → Bool} {pre post : List (TreeEntry K V)}
    {e : TreeEntry K V} (he : p e = true) (hother : ∀ x ∈ pre ++ post, p x = false) :
    takeEntry p (pre ++ e :: post) = some (e, pre ++ post) := by
  obtain ⟨hpre, hpost⟩ := List.forall_mem_append.mp hother
  have hnone : pre.find? p = none := by
    rw [List.find?_eq_none]
    intro x hx
    rw [hpre x hx]
    exact Bool.false_ne_true
  have hkeep : ∀ {l : List (TreeEntry K V)}, (∀ x ∈ l, p x = false) → l.filter (!p ·) = l := by
    intro l hl
    apply List.filter_eq_self.mpr
    intro x hx
    rw [hl x hx]
    rfl
  rw [takeEntry, List.find?_append, hnone, List.find?_cons_of_pos he, List.filter_append,
    List.filter_cons_of_neg (by rw [he]; exact Bool.false_ne_true), hkeep hpre, hkeep hpost]
  rfl

/-- The entry of a node is the only one of a kind, and it is taken out. -/
theorem Holds.takeOut {z : Located (TreeEntry K V)} {d : AssocNode K V}
    {p : TreeEntry K V → Bool} (h : t.Holds cmp s) (hstands : Stands t d z.tree 0)
    (hbal : z.tree.IsRedBlack) (hlist : z.tree.toList = s) (hp : p z.elem = true)
    (honly : ∀ pre post, s = pre ++ z.elem :: post → ∀ x ∈ pre ++ post, p x = false) :
    ∃ t' s', t.takeOut z.elem.it = some (z.elem, t') ∧ takeEntry p s = some (z.elem, s') ∧
      t'.Holds cmp s' := by
  obtain ⟨mem, root, d', tree, htake, hextract, hstands'⟩ :=
    hstands.takeOut hbal (by rw [h.size, hlist])
  obtain ⟨tree', htree, hbal'⟩ := Located.extract_isRedBlack hbal
  obtain rfl := Option.some.inj (hextract.symm.trans htree)
  obtain ⟨pre, post, hbefore, hafter⟩ := Located.toList_extract htree
  rw [hlist] at hbefore
  refine ⟨_, pre ++ post, htake, ?_, ⟨d', tree, hstands', hbal', hafter⟩, ?_, ?_⟩
  · rw [hbefore]
    exact takeEntry_eq hp (honly pre post hbefore)
  · have hsorted := h.sorted
    rw [hbefore] at hsorted
    exact hsorted.sublist (List.Sublist.append_left (List.sublist_cons_self z.elem post) pre)
  · dsimp only
    rw [h.size, hbefore, List.length_append, List.length_append, List.length_cons]
    omega

/-- The entry of an iterator is freed. -/
theorem Holds.freeIt {it : ℕ} (h : t.Holds cmp s) (hit : ∃ e ∈ s, e.it = it) :
    ∃ e t' s', t.freeIt it = some ((e.key, e.value), t') ∧
      takeEntry (·.it == it) s = some (e, s') ∧ t'.Holds cmp s' := by
  obtain ⟨d, tree, hstands, hbal, hlist⟩ := h.stands
  obtain ⟨e, he, rfl⟩ := hit
  obtain ⟨pre, post, hs⟩ := List.append_of_mem he
  obtain ⟨z, rfl, htree, -⟩ := exists_located (hlist.trans hs) []
  rw [plug_nil] at htree
  subst htree
  have hne := (Stands.at_node hstands).it_ne_dummy
  have honly : ∀ pre post, s = pre ++ z.elem :: post → ∀ x ∈ pre ++ post,
      (x.it == z.elem.it) = false := by
    intro pre post hs x hx
    have hnodup := h.nodup
    rw [hs] at hnodup
    have hnew := (List.nodup_cons.mp ((List.perm_middle.map TreeEntry.it).nodup_iff.mp hnodup)).1
    rw [beq_eq_false_iff_ne]
    intro heq
    exact hnew (List.mem_map.mpr ⟨x, hx, heq⟩)
  obtain ⟨t', s', htake, hentry, hholds⟩ := h.takeOut (p := (·.it == z.elem.it)) hstands hbal hlist
    (beq_self_eq_true _) honly
  refine ⟨z.elem, t', s', ?_, hentry, hholds⟩
  rw [AssocRbTree.freeIt, if_neg hne, htake, Option.bind_eq_bind, Option.bind_some]

theorem Holds.visit (h : t.Holds cmp s) : t.visit = some s := by
  obtain ⟨d, tree, hstands, -, rfl⟩ := h.stands
  exact hstands.visit h.size.ge

section Ordered

variable [Std.TransCmp cmp] {key : K}

/-- A new entry comes between those with smaller keys and those with greater ones. -/
theorem Holds.insert {it : ℕ} (h : t.Holds cmp s) (value : V) (hnull : it ≠ null)
    (hfree : t.mem it = none) (hnew : ∀ e ∈ s, cmp key e.key ≠ .eq) :
    ∃ t', t.insert cmp it key value = some t' ∧
      t'.Holds cmp (s.filter (fun e => !(cmp key e.key == .lt)) ++
        ⟨it, key, value⟩ :: s.filter (fun e => cmp key e.key == .lt)) := by
  obtain ⟨d, tree, hstands, hbal, hlist⟩ := h.stands
  subst hlist
  obtain ⟨mem, root, hinsert, hstands'⟩ :=
    @Stands.insert _ _ _ _ _ _ cmp ⟨it, key, value⟩ hstands hbal h.size hnull hfree
  have honward : GoesLeftOnward (fun e => cmp key e.key == .lt) tree := by
    apply h.sorted.imp
    intro a b hab hka
    rw [beq_iff_eq] at hka ⊢
    exact Std.TransCmp.lt_trans hka hab
  have hlt : ∀ e ∈ tree.toList.filter (fun e => cmp key e.key == .lt), cmp key e.key = .lt :=
    fun e he => beq_iff_eq.mp (List.mem_filter.mp he).2
  have hgt : ∀ e ∈ tree.toList.filter (fun e => !(cmp key e.key == .lt)), cmp e.key key = .lt := by
    intro e he
    obtain ⟨hmem, hnot⟩ := List.mem_filter.mp he
    apply Std.OrientedCmp.lt_of_gt
    cases hcmp : cmp key e.key with
    | lt =>
      rw [hcmp] at hnot
      cases hnot
    | eq => exact absurd hcmp (hnew e hmem)
    | gt => rfl
  refine ⟨_, hinsert, ⟨d, _, hstands', hbal.insert _ _, toList_insert honward _⟩, ?_, ?_⟩
  · rw [List.pairwise_append, List.pairwise_cons]
    refine ⟨h.sorted.filter _, ⟨hlt, h.sorted.filter _⟩, ?_⟩
    intro a ha b hb
    rcases List.mem_cons.mp hb with rfl | hb
    · exact hgt a ha
    · exact Std.TransCmp.lt_trans (hgt a ha) (hlt b hb)
  · have hlength := (List.filter_append_perm (fun e => cmp key e.key == .lt) tree.toList).length_eq
    rw [List.length_append] at hlength ⊢
    dsimp only
    rw [List.length_cons, h.size]
    omega

/-- No other key is equal to that of an entry. -/
theorem Holds.ne_of_eq {pre post : List (TreeEntry K V)} {e : TreeEntry K V} (h : t.Holds cmp s)
    (hs : s = pre ++ e :: post) (hkey : cmp key e.key = .eq) :
    ∀ x ∈ pre ++ post, cmp key x.key ≠ .eq := by
  have hsorted := h.sorted
  rw [hs, List.pairwise_append, List.pairwise_cons] at hsorted
  obtain ⟨-, ⟨hpost, -⟩, hpre⟩ := hsorted
  intro x hx heq
  rcases List.mem_append.mp hx with hx | hx
  · have hlt := hpre x hx e List.mem_cons_self
    rw [← Std.TransCmp.congr_left heq, hkey] at hlt
    cases hlt
  · have hlt := hpost x hx
    rw [← Std.TransCmp.congr_left hkey, heq] at hlt
    cases hlt

/-- A key that is there gives its value; where it is not, both refuse. -/
theorem Holds.extract (h : t.Holds cmp s) (key : K) :
    (∃ e t' s', t.extract cmp key = some (e.value, t') ∧
      takeEntry (cmp key ·.key == .eq) s = some (e, s') ∧ t'.Holds cmp s') ∨
    (t.extract cmp key = none ∧ takeEntry (cmp key ·.key == .eq) s = none) := by
  obtain ⟨d, tree, hstands, hbal, hlist⟩ := h.stands
  have hlength : tree.toList.length < t.size + 1 := by
    rw [h.size, hlist]
    exact Nat.lt_succ_self _
  have hfind := @Stands.findRbTree _ _ _ _ _ _ _ cmp key _ hstands.at_root hlength
  rw [← hstands.root] at hfind
  cases hlocate : locateFrom (cmp key ·.key) tree [] with
  | none =>
    rw [hlocate, Option.map_none, Option.getD_none] at hfind
    refine .inr ⟨?_, ?_⟩
    · rw [AssocRbTree.extract, hfind, Option.bind_eq_bind, Option.bind_some, if_pos rfl]
    · rw [takeEntry, Option.map_eq_none_iff, List.find?_eq_none]
      intro e he heq
      have horder : ProbesInOrder (cmp key ·.key) tree := by
        rw [ProbesInOrder, hlist]
        apply h.sorted.imp
        intro a b hab
        exact ⟨fun hka => Std.TransCmp.lt_trans hka hab,
          fun hkb => Std.TransCmp.gt_trans hkb (Std.OrientedCmp.gt_of_lt hab)⟩
      have hfound := @locateFrom_isSome _ _ _ [] _ horder (hlist ▸ he) (beq_iff_eq.mp heq)
      rw [hlocate] at hfound
      cases hfound
  | some z =>
    rw [hlocate, Option.map_some, Option.getD_some] at hfind
    obtain ⟨htree, hkey⟩ := locateFrom_tree hlocate
    rw [plug_nil] at htree
    subst htree
    have hne := (Stands.at_node hstands).it_ne_dummy
    have honly : ∀ pre post, s = pre ++ z.elem :: post → ∀ x ∈ pre ++ post,
        (cmp key x.key == .eq) = false :=
      fun pre post hs x hx => beq_eq_false_iff_ne.mpr (h.ne_of_eq hs hkey x hx)
    obtain ⟨t', s', htake, hentry, hholds⟩ := h.takeOut (p := (cmp key ·.key == .eq)) hstands hbal
      hlist (beq_iff_eq.mpr hkey) honly
    refine .inl ⟨z.elem, t', s', ?_, hentry, hholds⟩
    rw [AssocRbTree.extract, hfind, Option.bind_eq_bind, Option.bind_some, if_neg hne, htake,
      Option.bind_eq_bind, Option.bind_some]

end Ordered

end AssocRbTree

section Runs

variable {cmp : K → K → Ordering} [Std.TransCmp cmp]

/-- An operation on the nodes is that on the entries. -/
theorem assocRbOp_refines : Refines (AssocRbOp.specStep (V := V) cmp) (AssocRbOp.step cmp)
    (AssocRbOp.Allowed cmp) (fun s t => t.Holds cmp s) := by
  intro s t op h hop
  cases op with
  | insert it key value =>
    obtain ⟨hnull, hfree, hnew⟩ := hop
    obtain ⟨t', hinsert, hholds⟩ := h.insert value hnull hfree hnew
    rw [AssocRbOp.step, hinsert]
    exact ⟨rfl, hholds⟩
  | extract key =>
    rw [AssocRbOp.step, AssocRbOp.specStep]
    rcases h.extract key with ⟨e, t', s', hextract, hentry, hholds⟩ | ⟨hextract, hentry⟩
    · rw [hextract, hentry]
      exact ⟨rfl, hholds⟩
    · rw [hextract, hentry]
      exact trivial
  | freeIt it =>
    obtain ⟨e, t', s', hfree, hentry, hholds⟩ := h.freeIt hop
    rw [AssocRbOp.step, AssocRbOp.specStep, hfree, hentry]
    exact ⟨rfl, hholds⟩
  | visit =>
    rw [AssocRbOp.step, h.visit]
    exact ⟨rfl, h⟩

/-- An associative tree answers as the entries in the order of their keys do, and its nodes stand
for a red-black tree with them, behind every list of operations. -/
theorem assocRbTree_runs_matches {dummy : ℕ} {t : AssocRbTree K V}
    (hinit : AssocRbTree.init dummy = some t) (ops : List (AssocRbOp K V))
    (hops : AllowedAlong (AssocRbOp.specStep cmp) (AssocRbOp.step cmp) (AssocRbOp.Allowed cmp) [] t
      ops) :
    Matches (fun s t => t.Holds cmp s) (runs (AssocRbOp.specStep cmp) [] ops)
      (runs (AssocRbOp.step cmp) t ops) :=
  assocRbOp_refines.runs (AssocRbTree.holds_init hinit) hops

/-- Four keys, of which two are taken out again. -/
theorem assocRbTree_runs_matches_four : ∃ t : AssocRbTree ℕ ℕ, AssocRbTree.init 1 = some t ∧
    Matches (fun s t => t.Holds compare s)
      (runs (AssocRbOp.specStep compare) [] [.insert 2 5 50, .insert 3 7 70, .insert 4 6 60,
        .insert 5 8 80, .extract 5, .freeIt 3, .visit])
      (runs (AssocRbOp.step compare) t [.insert 2 5 50, .insert 3 7 70, .insert 4 6 60,
        .insert 5 8 80, .extract 5, .freeIt 3, .visit]) :=
  ⟨_, rfl, @assocRbTree_runs_matches ℕ ℕ compare _ 1 _ rfl _ (by decide)⟩

end Runs

end LlmHric.Flexric
