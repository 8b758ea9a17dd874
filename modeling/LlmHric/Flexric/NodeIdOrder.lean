import LlmHric.Flexric.Bimap
import LlmHric.Flexric.Ids
import LlmHric.Library.CheckedTrees
import LlmHric.Library.Run

/-! The registry of the iApp searches a node twice: along the list of its keys by equality, and down
the tree by order. The two functions that compare identifiers are written separately. Both assert
that the CU or DU id is there before they compare it, but they look at it for different types of
node: the order for every kind of CU, the equality for the CU-UP only. Here an identifier may lack
its CU or DU id whatever its type is, so that each assertion can fail. -/

namespace LlmHric.Flexric

open Checked RedBlack

/-- `global_e2_node_id_t` with any of its fields. A null pointer to the CU or DU id is `none`. -/
structure E2NodeIdFields where
  type : NgranNode
  plmn : E2apPlmn
  nbId : ℕ
  unused : ℕ
  cuDuId : Option ℕ
  deriving DecidableEq

namespace E2NodeIdFields

/-- A CU-UP and a DU have a CU or DU id. -/
def Carries (a : E2NodeIdFields) : Prop :=
  (a.type.isCuup || a.type.isDu) = true → a.cuDuId.isSome = true

/-- `eq_global_e2_node_id` of two objects -/
def eqGlobalE2NodeId (a b : E2NodeIdFields) : Outcome Bool :=
  if a.type ≠ b.type then .done false
  else if eqE2apPlmn a.plmn b.plmn = false then .done false
  else if ¬ (a.nbId = b.nbId ∧ a.unused = b.unused) then .done false
  -- "We interpret that a CU and CUCP are gnb + e2ap_node_component_config_add_t"
  else if a.type.isCuup || a.type.isDu then
    match a.cuDuId, b.cuDuId with
    | some i, some j => .done (i == j)
    | _, _ => .fault .assertion
  else .done true

/-- The fields that are compared whatever the type is; the smaller one comes last, except for
`unused`. -/
def cmpHead : E2NodeIdFields → E2NodeIdFields → Ordering :=
  compareLex (fun a b => compare b.type.toNat a.type.toNat) <|
  compareLex (fun a b => cmpE2apPlmn a.plmn b.plmn) <|
  compareLex (fun a b => compare b.nbId a.nbId) fun a b => compare a.unused b.unused

/-- `cmp_global_e2_node_id` -/
def cmpGlobalE2NodeId (a b : E2NodeIdFields) : Outcome Ordering :=
  match cmpHead a b with
  | .lt => .done .lt
  | .gt => .done .gt
  | .eq =>
    if a.type.isCu || a.type.isCuup || a.type.isDu then
      match a.cuDuId, b.cuDuId with
      | some i, some j => .done (compare j i)
      | _, _ => .fault .assertion
    else .done .eq

/-- The fields of an identifier that the decoder builds. -/
def ofDecoded (a : GlobalE2NodeId) : E2NodeIdFields := ⟨a.type, a.plmn, a.nbId, a.unused, a.cuDuId⟩

end E2NodeIdFields

/-! ### The registry -/

section Registry

variable {Rf : Type}

/-- `assoc_insert` with the comparison of identifiers -/
def insertChecked (t : AssocTree E2NodeIdFields Rf) (id : E2NodeIdFields) (rf : Rf) :
    Outcome (AssocTree E2NodeIdFields Rf) := do
  let goLeft e := do return (← id.cmpGlobalE2NodeId e.1) == .lt
  let path ← descendChecked goLeft t.root []
  return ⟨insertFixup (.node .red .nil (id, rf) .nil) path, t.size + 1⟩

/-- `find_if` with the equality of identifiers: the node it finds. -/
def findChecked (t : AssocTree E2NodeIdFields Rf) (id : E2NodeIdFields) :
    Outcome (Option (Located (E2NodeIdFields × Rf))) :=
  firstChecked (fun e => id.eqGlobalE2NodeId e.1) t.root []

/-- `assoc_rb_tree_extract_node`, and the size counter of its callers. -/
def extractNode (t : AssocTree E2NodeIdFields Rf) (z : Located (E2NodeIdFields × Rf)) :
    Outcome (AssocTree E2NodeIdFields Rf) :=
  match z.extract with
  | none => .fault .nullPointer
  | some root => do
    Outcome.assertFatal (t.size ≠ 0)
    return ⟨root, t.size - 1⟩

/-- `find_rb_tree` with the comparison of identifiers: the node it finds. -/
def findRbTreeChecked (t : AssocTree E2NodeIdFields Rf) (id : E2NodeIdFields) :
    Outcome (Option (Located (E2NodeIdFields × Rf))) :=
  locateChecked (fun e => id.cmpGlobalE2NodeId e.1) t.root []

/-- `assoc_extract`: the entry of the node it finds, and the tree without it. -/
def extractChecked (t : AssocTree E2NodeIdFields Rf) (id : E2NodeIdFields) :
    Outcome ((E2NodeIdFields × Rf) × AssocTree E2NodeIdFields Rf) := do
  match ← findRbTreeChecked t id with
  -- "Trying to extract a key not found in the tree"
  | none => .fault .assertion
  | some z => return (z.elem, ← extractNode t z)

/-- `add_reg_e2_node` -/
def addRegE2NodeChecked (t : AssocTree E2NodeIdFields Rf) (id : E2NodeIdFields) (rf : Rf) :
    Outcome (AssocTree E2NodeIdFields Rf) := do
  if t.size > 0 then
    match ← findChecked t id with
    | none => insertChecked t id rf
    | some _ =>
      -- "Replacing already registered E2 Node after duplicate E2 setup"
      let (_, t') ← extractChecked t id
      insertChecked t' id rf
  else insertChecked t id rf

/-- `rm_reg_e2_node` -/
def rmRegE2NodeChecked (t : AssocTree E2NodeIdFields Rf) (id : E2NodeIdFields) :
    Outcome (AssocTree E2NodeIdFields Rf) := do
  match ← findChecked t id with
  -- "Not registed e2 Node passed"
  | none => .fault .assertion
  | some z => extractNode t z

/-- What happens to the registry. -/
inductive NodeRegEvent (Rf : Type)
  | add (id : E2NodeIdFields) (rf : Rf)
  | rm (id : E2NodeIdFields)

/-- The identifier of an event. -/
def NodeRegEvent.id : NodeRegEvent Rf → E2NodeIdFields
  | add id _ => id
  | rm id => id

/-- One call. -/
def NodeRegEvent.run (t : AssocTree E2NodeIdFields Rf) :
    NodeRegEvent Rf → Outcome (AssocTree E2NodeIdFields Rf)
  | add id rf => addRegE2NodeChecked t id rf
  | rm id => rmRegE2NodeChecked t id

/-- A run of the registry with identifiers of a set. -/
abbrev NodeRegRun (S : E2NodeIdFields → Prop) (tr : List (NodeRegEvent Rf))
    (t : AssocTree E2NodeIdFields Rf) : Prop :=
  Run.Reach (fun ev s t => S ev.id ∧ ev.run s = .done t) (· = .empty) tr t

end Registry

/-- On a set of identifiers, no comparison is aborted, equality says what the order says, and the
order is one. In every run of the registry the search down the tree ends at the node where the
search by equality ends, its entry is extracted, and a further node is added. -/
structure RegistryWorks (S : E2NodeIdFields → Prop) : Prop where
  eq_iff_cmp : ∀ a b, S a → S b → ∃ e c, a.eqGlobalE2NodeId b = .done e ∧
    a.cmpGlobalE2NodeId b = .done c ∧ (e = true ↔ c = .eq)
  cmp_swap : ∀ a b, S a → S b → ∀ c, a.cmpGlobalE2NodeId b = .done c →
    b.cmpGlobalE2NodeId a = .done c.swap
  cmp_trans : ∀ a b c, S a → S b → S c → a.cmpGlobalE2NodeId b = .done .lt →
    b.cmpGlobalE2NodeId c = .done .lt → a.cmpGlobalE2NodeId c = .done .lt
  cmp_congr : ∀ a b c, S a → S b → S c → a.cmpGlobalE2NodeId b = .done .eq →
    a.cmpGlobalE2NodeId c = b.cmpGlobalE2NodeId c
  finds_same : ∀ (Rf : Type) (tr : List (NodeRegEvent Rf)) (t : AssocTree E2NodeIdFields Rf),
    NodeRegRun S tr t → ∀ id, S id →
      (∃ found, findChecked t id = .done found ∧ findRbTreeChecked t id = .done found ∧
        ∀ z, found = some z → ∃ t', extractChecked t id = .done (z.elem, t') ∧
          ∃ pre post, t.entries = pre ++ z.elem :: post ∧ t'.entries = pre ++ post) ∧
      ∀ rf, ∃ t', addRegE2NodeChecked t id rf = .done t'

namespace E2NodeIdFields

/-- Two identifiers of one CU, not of a CU-UP, that do not both have one and the same CU or DU id:
the order looks at the ids, and equality does not. -/
def Clash (a b : E2NodeIdFields) : Prop :=
  (a.type.isCu = true ∧ a.type.isCuup = false) ∧ cmpHead a b = .eq ∧
    ¬ ∃ i, a.cuDuId = some i ∧ b.cuDuId = some i

/-! ### The comparisons -/

/-- The CU or DU id, for a type that the order asks for it. -/
def orderedId (a : E2NodeIdFields) : ℕ :=
  if a.type.isCu || a.type.isCuup || a.type.isDu then a.cuDuId.getD 0 else 0

/-- The order, where it is not aborted. -/
def order : E2NodeIdFields → E2NodeIdFields → Ordering :=
  compareLex cmpHead fun a b => compare b.orderedId a.orderedId

instance : Std.TransCmp cmpHead := by
  have htype := transCmp_down fun a : E2NodeIdFields => a.type.toNat
  have hplmn := transCmp_on cmpE2apPlmn E2NodeIdFields.plmn
  have hnb := transCmp_down E2NodeIdFields.nbId
  have hunused := transCmp_on (compare : ℕ → ℕ → Ordering) E2NodeIdFields.unused
  unfold cmpHead
  infer_instance

instance : Std.TransCmp order := by
  have hid := transCmp_down orderedId
  unfold order
  infer_instance

theorem cmpHead_eq_iff {a b : E2NodeIdFields} :
    cmpHead a b = .eq ↔
      a.type = b.type ∧ a.plmn = b.plmn ∧ a.nbId = b.nbId ∧ a.unused = b.unused := by
  simp only [cmpHead, compareLex, Ordering.then_eq_eq, Nat.compare_eq_eq, NgranNode.toNat_inj,
    cmpE2apPlmn_eq_iff]
  constructor
  · intro h
    exact ⟨h.1.symm, h.2.1, h.2.2.1.symm, h.2.2.2⟩
  · intro h
    exact ⟨h.1.symm, h.2.1, h.2.2.1.symm, h.2.2.2⟩

variable {a b : E2NodeIdFields}

/-- Equality looks at the fields that the order looks at first. -/
theorem eqGlobalE2NodeId_eq :
    a.eqGlobalE2NodeId b =
      if cmpHead a b = .eq then
        if a.type.isCuup || a.type.isDu then
          match a.cuDuId, b.cuDuId with
          | some i, some j => .done (i == j)
          | _, _ => .fault .assertion
        else .done true
      else .done false := by
  rw [eqGlobalE2NodeId]
  by_cases htype : a.type = b.type
  · by_cases hplmn : a.plmn = b.plmn
    · by_cases hnb : a.nbId = b.nbId ∧ a.unused = b.unused
      · have hplmn' : ¬ eqE2apPlmn a.plmn b.plmn = false := by simp [hplmn]
        rw [if_neg (not_not.mpr htype), if_neg hplmn', if_neg (not_not.mpr hnb),
          if_pos (cmpHead_eq_iff.mpr ⟨htype, hplmn, hnb⟩)]
      · simp [htype, hplmn, hnb, cmpHead_eq_iff]
    · simp [htype, hplmn, cmpHead_eq_iff]
  · simp [htype, cmpHead_eq_iff]

theorem isDu_of_isCu {t : NgranNode} (h : t.isCu = true) : t.isDu = false := by
  cases t with
  | eNBDu => cases h
  | gNBDu => cases h
  | _ => rfl

/-- The ids of two identifiers that agree in the other fields. -/
theorem ids_cases (ha : a.Carries) (hb : b.Carries) (hab : ¬ Clash a b)
    (hhead : cmpHead a b = .eq) :
    (∃ i j, a.cuDuId = some i ∧ b.cuDuId = some j ∧
      ((a.type.isCuup || a.type.isDu) = true ∨ a.type.isCu = true ∧ i = j)) ∨
    (a.type.isCu || a.type.isCuup || a.type.isDu) = false := by
  have htype : a.type = b.type := (cmpHead_eq_iff.mp hhead).1
  cases hcarries : (a.type.isCuup || a.type.isDu) with
  | true =>
    obtain ⟨i, hi⟩ := Option.isSome_iff_exists.mp (ha hcarries)
    obtain ⟨j, hj⟩ := Option.isSome_iff_exists.mp (hb (htype ▸ hcarries))
    exact .inl ⟨i, j, hi, hj, .inl rfl⟩
  | false =>
    have hcuup : a.type.isCuup = false := (Bool.or_eq_false_iff.mp hcarries).1
    cases hcu : a.type.isCu with
    | true =>
      have hboth : ∃ i, a.cuDuId = some i ∧ b.cuDuId = some i := by
        by_contra hnone
        exact hab ⟨⟨hcu, hcuup⟩, hhead, hnone⟩
      obtain ⟨i, hi, hj⟩ := hboth
      exact .inl ⟨i, i, hi, hj, .inr ⟨rfl, rfl⟩⟩
    | false => exact .inr (by rw [Bool.or_assoc, hcarries]; rfl)

/-- Without a clash, the comparison of two identifiers is not aborted. -/
theorem cmpGlobalE2NodeId_eq_order (ha : a.Carries) (hb : b.Carries) (hab : ¬ Clash a b) :
    a.cmpGlobalE2NodeId b = .done (order a b) := by
  rw [cmpGlobalE2NodeId]
  cases hhead : cmpHead a b with
  | lt => rw [order, compareLex, hhead]; rfl
  | gt => rw [order, compareLex, hhead]; rfl
  | eq =>
    have htype : a.type = b.type := (cmpHead_eq_iff.mp hhead).1
    have horder : order a b = compare b.orderedId a.orderedId := by
      rw [order, compareLex, hhead]
      rfl
    rw [horder, orderedId, orderedId, ← htype]
    rcases ids_cases ha hb hab hhead with ⟨i, j, hi, hj, htypes⟩ | hnone
    · have hasks : (a.type.isCu || a.type.isCuup || a.type.isDu) = true := by
        rcases htypes with hcarries | ⟨hcu, -⟩
        · rw [Bool.or_assoc, hcarries, Bool.or_true]
        · rw [hcu]
          rfl
      simp only [hasks, if_true, hi, hj, Option.getD_some]
    · simp only [hnone, Bool.false_eq_true, if_false]
      rfl

/-- Without a clash, two identifiers are equal when the order has them so. -/
theorem eqGlobalE2NodeId_eq_order (ha : a.Carries) (hb : b.Carries) (hab : ¬ Clash a b) :
    a.eqGlobalE2NodeId b = .done (order a b == .eq) := by
  rw [eqGlobalE2NodeId_eq]
  by_cases hhead : cmpHead a b = .eq
  · have htype : a.type = b.type := (cmpHead_eq_iff.mp hhead).1
    have horder : order a b = compare b.orderedId a.orderedId := by
      rw [order, compareLex, hhead]
      rfl
    rw [if_pos hhead, horder, orderedId, orderedId, ← htype]
    rcases ids_cases ha hb hab hhead with ⟨i, j, hi, hj, hcarries | ⟨hcu, rfl⟩⟩ | hnone
    · have hasks : (a.type.isCu || a.type.isCuup || a.type.isDu) = true := by
        rw [Bool.or_assoc, hcarries, Bool.or_true]
      simp only [hcarries, hasks, if_true, hi, hj, Option.getD_some, Outcome.done.injEq]
      rw [Bool.eq_iff_iff, beq_iff_eq, beq_iff_eq, Nat.compare_eq_eq, eq_comm]
    · -- a CU with one and the same id in both
      simp [hcu, hi, hj]
    · rw [Bool.or_assoc, Bool.or_eq_false_iff] at hnone
      simp [hnone.1, hnone.2]
  · have horder : order a b ≠ .eq := by
      rw [order, compareLex, Ne, Ordering.then_eq_eq]
      exact fun h => hhead h.1
    rw [if_neg hhead, beq_eq_false_iff_ne.mpr horder]

/-- With a clash, equality holds and the order does not find it. -/
theorem Clash.disagree (h : Clash a b) :
    a.eqGlobalE2NodeId b = .done true ∧ a.cmpGlobalE2NodeId b ≠ .done .eq := by
  obtain ⟨⟨hcu, hcuup⟩, hhead, hids⟩ := h
  refine ⟨?_, ?_⟩
  · rw [eqGlobalE2NodeId_eq, if_pos hhead, hcuup, isDu_of_isCu hcu]
    rfl
  · rw [cmpGlobalE2NodeId, hhead]
    dsimp only
    rw [hcu]
    intro hcmp
    cases hi : a.cuDuId with
    | none => rw [hi] at hcmp; cases hcmp
    | some i =>
      cases hj : b.cuDuId with
      | none => rw [hi, hj] at hcmp; cases hcmp
      | some j =>
        rw [hi, hj] at hcmp
        have hij : compare j i = .eq := by simpa using hcmp
        obtain rfl := Nat.compare_eq_eq.mp hij
        exact hids ⟨_, hi, hj⟩

section Decoded

variable {x y : GlobalE2NodeId}

/-- The identifiers that the decoder of a setup request builds carry their fields. -/
theorem carries_ofDecoded (x : GlobalE2NodeId) : (ofDecoded x).Carries := by
  intro hcarries
  rcases x.decoded with ⟨htype | htype, -⟩ | ⟨-, hsome⟩
  · rw [ofDecoded, htype] at hcarries
    cases hcarries
  · rw [ofDecoded, htype] at hcarries
    cases hcarries
  · exact hsome

/-- The decoder of a setup request builds no CU but CU-UPs. -/
theorem not_clash_ofDecoded (x : GlobalE2NodeId) (b : E2NodeIdFields) :
    ¬ Clash (ofDecoded x) b := by
  intro ⟨⟨hcu, hcuup⟩, _⟩
  have hcarries := x.carries_eq
  change x.type.isCu = true at hcu
  change x.type.isCuup = false at hcuup
  rw [hcu, hcuup, isDu_of_isCu hcu] at hcarries
  cases hcarries

theorem order_ofDecoded :
    order (ofDecoded x) (ofDecoded y) = Flexric.cmpGlobalE2NodeId x y := by
  rw [cmpGlobalE2NodeId_eq]
  have hid : ∀ z : GlobalE2NodeId, (ofDecoded z).orderedId = z.cuDuId.getD 0 := by
    intro z
    rw [orderedId]
    split_ifs with hasks
    · rfl
    · change ¬ (z.type.isCu || z.type.isCuup || z.type.isDu) = true at hasks
      rw [z.carries_eq, Bool.not_eq_true] at hasks
      rw [z.cuDuId_eq_none hasks]
      rfl
  simp only [order, cmpHead, compareLex, hid, Ordering.then_assoc]
  rfl

/-- On decoded identifiers the order is the one of the registries of connected nodes. -/
theorem cmpGlobalE2NodeId_ofDecoded :
    (ofDecoded x).cmpGlobalE2NodeId (ofDecoded y) = .done (Flexric.cmpGlobalE2NodeId x y) := by
  rw [cmpGlobalE2NodeId_eq_order (carries_ofDecoded x) (carries_ofDecoded y)
    (not_clash_ofDecoded x _), order_ofDecoded]

/-- On decoded identifiers equality is the one of the registries of connected nodes. -/
theorem eqGlobalE2NodeId_ofDecoded :
    (ofDecoded x).eqGlobalE2NodeId (ofDecoded y) = .done (Flexric.eqGlobalE2NodeId x y) := by
  rw [eqGlobalE2NodeId_eq_order (carries_ofDecoded x) (carries_ofDecoded y)
    (not_clash_ofDecoded x _), order_ofDecoded]
  congr 1
  rw [Bool.eq_iff_iff, beq_iff_eq, cmpGlobalE2NodeId_eq_iff, eqGlobalE2NodeId_iff]

end Decoded

end E2NodeIdFields

/-! ### The registry without a clash -/

section Registry

open E2NodeIdFields

variable {Rf : Type} {S : E2NodeIdFields → Prop} {t : AssocTree E2NodeIdFields Rf}

/-- The nodes of a registry are of the set, in order, and each is there once. -/
structure NodeRegInv (S : E2NodeIdFields → Prop) (t : AssocTree E2NodeIdFields Rf) : Prop where
  wellFormed : t.WellFormed order
  mem : ∀ e ∈ t.entries, S e.1
  distinct : t.entries.Pairwise fun a b => order a.1 b.1 ≠ .eq

theorem nodeRegInv_empty : NodeRegInv S (.empty : AssocTree E2NodeIdFields Rf) :=
  ⟨AssocTree.wellFormed_empty, fun _ he => absurd he List.not_mem_nil, .nil⟩

/-- Behind an element that is not less, the elements are greater. -/
theorem NodeRegInv.probesStrictly (h : NodeRegInv S t) (id : E2NodeIdFields) :
    t.root.toList.Pairwise fun x y => order id x.1 ≠ .gt → order id y.1 = .lt := by
  apply (h.wellFormed.sorted.and h.distinct).imp
  intro x y ⟨hle, hne⟩ hx
  have hxy : order x.1 y.1 = .lt := by
    cases hcmp : order x.1 y.1 with
    | lt => rfl
    | eq => exact absurd hcmp hne
    | gt => rw [hcmp] at hle; cases hle
  have hle' : (order id x.1).isLE = true := by
    cases hcmp : order id x.1 with
    | lt => rfl
    | eq => rfl
    | gt => exact absurd hcmp hx
  exact Std.TransCmp.lt_of_isLE_of_lt hle' hxy

/-- Without a node, the invariant stays. -/
theorem NodeRegInv.of_removed (h : NodeRegInv S t) {t' : AssocTree E2NodeIdFields Rf}
    {e : E2NodeIdFields × Rf} (hwf : t'.WellFormed order)
    (hent : ∃ pre post, t.entries = pre ++ e :: post ∧ t'.entries = pre ++ post) :
    NodeRegInv S t' ∧ ∀ x ∈ t'.entries, order e.1 x.1 ≠ .eq := by
  obtain ⟨pre, post, hpre, hpost⟩ := hent
  have hsub : t'.entries.Sublist t.entries := by
    rw [hpre, hpost]
    exact List.Sublist.append_left (List.sublist_cons_self _ _) _
  refine ⟨⟨hwf, fun x hx => h.mem x (hsub.subset hx), h.distinct.sublist hsub⟩, ?_⟩
  intro x hx heq
  have hdist := h.distinct
  rw [hpre, List.pairwise_append, List.pairwise_cons] at hdist
  rw [hpost, List.mem_append] at hx
  rcases hx with hx | hx
  · exact hdist.2.2 x hx e (List.mem_cons_self ..) (Std.OrientedCmp.eq_comm.mp heq)
  · exact hdist.2.1.1 x hx heq

theorem NodeRegInv.insert (h : NodeRegInv S t) {id : E2NodeIdFields} (hid : S id)
    (hnew : ∀ x ∈ t.entries, order id x.1 ≠ .eq) (rf : Rf) :
    NodeRegInv S (t.insert order id rf) := by
  have hperm := AssocTree.perm_insert h.wellFormed id rf
  refine ⟨h.wellFormed.insert id rf, ?_, ?_⟩
  · intro e he
    rcases List.mem_cons.mp (hperm.mem_iff.mp he) with rfl | he
    · exact hid
    · exact h.mem e he
  · have hsymm : ∀ {x y : E2NodeIdFields × Rf}, order x.1 y.1 ≠ .eq → order y.1 x.1 ≠ .eq :=
      fun hne heq => hne (Std.OrientedCmp.eq_comm.mp heq)
    apply (hperm.pairwise_iff hsymm).mpr
    exact List.pairwise_cons.mpr ⟨hnew, h.distinct⟩

/-- No two identifiers of the set clash, and all carry their fields. -/
structure ClashFree (S : E2NodeIdFields → Prop) : Prop where
  carries : ∀ a, S a → a.Carries
  not_clash : ∀ a b, S a → S b → ¬ Clash a b

section ClashFree

variable (hS : ClashFree S) (h : NodeRegInv S t) {id : E2NodeIdFields} (hid : S id)

include hS

theorem ClashFree.cmp_eq {a b : E2NodeIdFields} (ha : S a) (hb : S b) :
    a.cmpGlobalE2NodeId b = .done (order a b) :=
  cmpGlobalE2NodeId_eq_order (hS.carries a ha) (hS.carries b hb) (hS.not_clash a b ha hb)

theorem ClashFree.eq_eq {a b : E2NodeIdFields} (ha : S a) (hb : S b) :
    a.eqGlobalE2NodeId b = .done (order a b == .eq) :=
  eqGlobalE2NodeId_eq_order (hS.carries a ha) (hS.carries b hb) (hS.not_clash a b ha hb)

include h hid

theorem insertChecked_eq (rf : Rf) : insertChecked t id rf = .done (t.insert order id rf) := by
  have hgo : ∀ e ∈ t.root.toList,
      (do return (← id.cmpGlobalE2NodeId e.1) == .lt) = Outcome.done (order id e.1 == .lt) := by
    intro e he
    rw [hS.cmp_eq hid (h.mem e he)]
    rfl
  rw [insertChecked, descendChecked_eq hgo]
  rfl

/-- Both searches end at the node that the search of the tree with the total order finds. -/
theorem searches_eq :
    findChecked t id = .done (t.root.locate fun e => order id e.1) ∧
      findRbTreeChecked t id = .done (t.root.locate fun e => order id e.1) := by
  refine ⟨?_, ?_⟩
  · rw [findChecked, firstChecked_eq fun e he => hS.eq_eq hid (h.mem e he),
      firstFrom_eq_locateFrom (h.probesStrictly id)]
    rfl
  · rw [findRbTreeChecked, locateChecked_eq fun e he => hS.cmp_eq hid (h.mem e he)]
    rfl

omit hS hid in
/-- A node of the tree is taken out, and nothing else. -/
theorem extractNode_eq {z : Located (E2NodeIdFields × Rf)} (hz : z.tree = t.root) :
    ∃ t', extractNode t z = .done t' ∧ t'.WellFormed order ∧
      ∃ pre post, t.entries = pre ++ z.elem :: post ∧ t'.entries = pre ++ post := by
  obtain ⟨root, hroot, hne, hwf, hent⟩ := h.wellFormed.extract_at hz
  refine ⟨⟨root, t.size - 1⟩, ?_, hwf, hent⟩
  rw [extractNode, hroot]
  dsimp only
  rw [Outcome.assertFatal_of hne]
  rfl

theorem extractChecked_eq {z : Located (E2NodeIdFields × Rf)}
    (hz : (t.root.locate fun e => order id e.1) = some z) :
    ∃ t', extractChecked t id = .done (z.elem, t') ∧ t'.WellFormed order ∧
      ∃ pre post, t.entries = pre ++ z.elem :: post ∧ t'.entries = pre ++ post := by
  obtain ⟨t', ht', hwf, hent⟩ := extractNode_eq h (locateFrom_tree hz).1
  refine ⟨t', ?_, hwf, hent⟩
  rw [extractChecked, (searches_eq hS h hid).2, hz, Outcome.done_bind]
  dsimp only
  rw [ht']
  rfl

/-- A node is added; an earlier entry for it is replaced. -/
theorem addRegE2NodeChecked_inv (rf : Rf) :
    ∃ t', addRegE2NodeChecked t id rf = .done t' ∧ NodeRegInv S t' := by
  rw [addRegE2NodeChecked]
  cases hfound : t.root.locate fun e => order id e.1 with
  | none =>
    have hnew : ∀ x ∈ t.entries, order id x.1 ≠ .eq := by
      intro x hx heq
      obtain ⟨e, he⟩ := h.wellFormed.lookup_isSome hx heq
      rw [AssocTree.lookup, hfound] at he
      cases he
    refine ⟨t.insert order id rf, ?_, h.insert hid hnew rf⟩
    rw [(searches_eq hS h hid).1, hfound, Outcome.done_bind]
    dsimp only
    rw [insertChecked_eq hS h hid]
    split_ifs <;> rfl
  | some z =>
    obtain ⟨t', hextract, hwf, hent⟩ := extractChecked_eq hS h hid hfound
    obtain ⟨hinv, hnew⟩ := h.of_removed hwf hent
    have hprobe : order id z.elem.1 = .eq := (locateFrom_tree hfound).2
    have hsize : t.size > 0 := by
      obtain ⟨pre, post, hpre, -⟩ := hent
      rw [h.wellFormed.size_eq, hpre, List.length_append, List.length_cons]
      omega
    -- the other entries are for other nodes
    have hnew' : ∀ x ∈ t'.entries, order id x.1 ≠ .eq := by
      intro x hx heq
      exact hnew x hx (Std.TransCmp.eq_trans (Std.OrientedCmp.eq_comm.mp hprobe) heq)
    refine ⟨t'.insert order id rf, ?_, hinv.insert hid hnew' rf⟩
    rw [if_pos hsize, (searches_eq hS h hid).1, hfound, Outcome.done_bind]
    dsimp only
    rw [hextract, Outcome.done_bind]
    exact insertChecked_eq hS hinv hid rf

theorem rmRegE2NodeChecked_inv {t' : AssocTree E2NodeIdFields Rf}
    (hrm : rmRegE2NodeChecked t id = .done t') : NodeRegInv S t' := by
  rw [rmRegE2NodeChecked, (searches_eq hS h hid).1, Outcome.done_bind] at hrm
  cases hfound : t.root.locate fun e => order id e.1 with
  | none => rw [hfound] at hrm; cases hrm
  | some z =>
    rw [hfound] at hrm
    dsimp only at hrm
    obtain ⟨t'', ht'', hwf, hent⟩ := extractNode_eq h (locateFrom_tree hfound).1
    obtain rfl := Outcome.done.inj (ht''.symm.trans hrm)
    exact (h.of_removed hwf hent).1

end ClashFree

/-- Along a run with identifiers that do not clash, every node is registered once. -/
theorem NodeRegRun.inv (hS : ClashFree S) {tr : List (NodeRegEvent Rf)} (h : NodeRegRun S tr t) :
    NodeRegInv S t := by
  apply Run.Reach.invariant h
  · intro t ht
    rw [ht]
    exact nodeRegInv_empty
  · intro ev t t' hinv ⟨hid, hrun⟩
    cases ev with
    | add id rf =>
      obtain ⟨t'', ht'', hinv'⟩ := addRegE2NodeChecked_inv hS hinv hid rf
      obtain rfl := Outcome.done.inj (ht''.symm.trans hrun)
      exact hinv'
    | rm id => exact rmRegE2NodeChecked_inv hS hinv hid hrun

/-- The registry works for identifiers that do not clash. -/
theorem ClashFree.registryWorks (hS : ClashFree S) : RegistryWorks S where
  eq_iff_cmp a b ha hb := by
    refine ⟨_, _, hS.eq_eq ha hb, hS.cmp_eq ha hb, ?_⟩
    rw [beq_iff_eq]
  cmp_swap a b ha hb c hc := by
    rw [hS.cmp_eq ha hb] at hc
    obtain rfl := Outcome.done.inj hc
    have hswap : order b a = (order a b).swap := Std.OrientedCmp.eq_swap
    rw [hS.cmp_eq hb ha, hswap]
  cmp_trans a b c ha hb hc hab hbc := by
    rw [hS.cmp_eq ha hb, Outcome.done.injEq] at hab
    rw [hS.cmp_eq hb hc, Outcome.done.injEq] at hbc
    rw [hS.cmp_eq ha hc, Std.TransCmp.lt_trans hab hbc]
  cmp_congr a b c ha hb hc hab := by
    rw [hS.cmp_eq ha hb, Outcome.done.injEq] at hab
    rw [hS.cmp_eq ha hc, hS.cmp_eq hb hc, Std.TransCmp.congr_left hab]
  finds_same Rf tr t hrun id hid := by
    have hinv := NodeRegRun.inv hS hrun
    refine ⟨⟨_, (searches_eq hS hinv hid).1, (searches_eq hS hinv hid).2, ?_⟩, ?_⟩
    · intro z hz
      obtain ⟨t', hextract, -, hent⟩ := extractChecked_eq hS hinv hid hz
      exact ⟨t', hextract, hent⟩
    · intro rf
      obtain ⟨t', ht', -⟩ := addRegE2NodeChecked_inv hS hinv hid rf
      exact ⟨t', ht'⟩

end Registry

/-- The registry works for the identifiers that the decoder of a setup request builds, with the
equality and the order of the registries of connected nodes. -/
theorem registryWorks_ofDecoded :
    (RegistryWorks fun a => ∃ x, a = E2NodeIdFields.ofDecoded x) ∧ ∀ x y : GlobalE2NodeId,
      (E2NodeIdFields.ofDecoded x).eqGlobalE2NodeId (.ofDecoded y) =
          .done (eqGlobalE2NodeId x y) ∧
        (E2NodeIdFields.ofDecoded x).cmpGlobalE2NodeId (.ofDecoded y) =
          .done (cmpGlobalE2NodeId x y) := by
  refine ⟨ClashFree.registryWorks ⟨?_, ?_⟩, fun x y => ?_⟩
  · rintro _ ⟨x, rfl⟩
    exact E2NodeIdFields.carries_ofDecoded x
  · rintro _ b ⟨x, rfl⟩ -
    exact E2NodeIdFields.not_clash_ofDecoded x b
  · exact ⟨E2NodeIdFields.eqGlobalE2NodeId_ofDecoded, E2NodeIdFields.cmpGlobalE2NodeId_ofDecoded⟩

/-- The registry does not work for two identifiers that clash. -/
theorem RegistryWorks.not_clash {S : E2NodeIdFields → Prop} (h : RegistryWorks S)
    {a b : E2NodeIdFields} (ha : S a) (hb : S b) : ¬ E2NodeIdFields.Clash a b := by
  intro hclash
  obtain ⟨heq, hne⟩ := hclash.disagree
  obtain ⟨e, c, he, hc, hiff⟩ := h.eq_iff_cmp a b ha hb
  obtain rfl := Outcome.done.inj (heq.symm.trans he)
  rw [hiff.mp rfl] at hc
  exact hne hc

/-- **The registry of the nodes.** For identifiers with the fields that their types carry, equality
and order agree, the order is one, and the registry finds its nodes exactly when no two of them are
of one CU without one and the same CU or DU id. -/
theorem registryWorks_iff (S : E2NodeIdFields → Prop) (hS : ∀ a, S a → a.Carries) :
    RegistryWorks S ↔ ∀ a b, S a → S b → ¬ E2NodeIdFields.Clash a b := by
  constructor
  · intro h a b ha hb
    exact h.not_clash ha hb
  · intro h
    exact ClashFree.registryWorks ⟨hS, h⟩

/-- A CU-UP and the DUs of one base station. -/
theorem registryWorks_splitNode :
    RegistryWorks fun a => ∃ i, a = ⟨.gNBCuup, ⟨208, 95, 2⟩, 3584, 28, some i⟩ ∨
      a = ⟨.gNBDu, ⟨208, 95, 2⟩, 3584, 28, some i⟩ := by
  apply (registryWorks_iff _ _).mpr
  · intro a b ⟨i, ha⟩ _ ⟨⟨hcu, hcuup⟩, _⟩
    rcases ha with ha | ha
    · rw [ha] at hcuup
      cases hcuup
    · rw [ha] at hcu
      cases hcu
  · intro a ⟨i, ha⟩ _
    rcases ha with ha | ha
    · rw [ha]
      rfl
    · rw [ha]
      rfl

/-- A CU as the decoder of the E42 setup response builds it, without an id: it equals itself, and
its comparison with itself is aborted. -/
theorem not_registryWorks_cu :
    ¬ ∀ S : E2NodeIdFields → Prop, (∀ a, S a → a.Carries) → RegistryWorks S := by
  intro h
  have hworks := h (fun a => a = ⟨.gNBCu, ⟨208, 95, 2⟩, 3584, 28, none⟩) (by
    intro a ha hcarries
    rw [ha] at hcarries
    cases hcarries)
  apply hworks.not_clash rfl rfl
  refine ⟨⟨rfl, rfl⟩, rfl, ?_⟩
  intro ⟨i, hi, _⟩
  cases hi

end LlmHric.Flexric
