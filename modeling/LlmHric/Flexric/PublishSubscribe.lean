import LlmHric.Flexric.Bimap
import Mathlib.Data.List.Induction
import Mathlib.Data.List.Nodup

/-! The RIC keeps, for each RAN function, the listeners that want its indications, in the order in
which they registered. The lists are the values of a red-black tree over the RAN function ids. An
indication looks its id up, and then calls the listeners of the first entry of the tree, which is
the one with the smallest id. -/

namespace LlmHric.Flexric

open RedBlack

/-- `cmp_ran_func_id` -/
def cmpRanFuncId : UInt16 → UInt16 → Ordering := compare

/-- `eq_ran_func_id` -/
def eqRanFuncId (a b : UInt16) : Bool := a == b

instance : Std.TransCmp cmpRanFuncId := inferInstanceAs (Std.TransCmp (compare : UInt16 → _))

theorem isLE_cmpRanFuncId {a b : UInt16} (h : (cmpRanFuncId a b).isLE = true) : a ≤ b :=
  Std.isLE_compare.mp h

/-- `subs_ric_t`: a listener with its callback. -/
structure SubsRic (F : Type) where
  name : String
  fp : F
  deriving DecidableEq

/-- `pub_sub`: the listeners of each RAN function. -/
abbrev PubSub (F : Type) := AssocTree UInt16 (List (SubsRic F))

section Operations

variable {F D : Type}

/-- `register_listeners_for_ran_func_id` -/
def registerListenersForRanFuncId (pubSub : PubSub F) (ranFuncId : UInt16) (subs : SubsRic F) :
    PubSub F :=
  match pubSub.findIf (eqRanFuncId ranFuncId) with
  | none => pubSub.insert cmpRanFuncId ranFuncId [subs]
  | some _ => (pubSub.modifyIf (eqRanFuncId ranFuncId) (· ++ [subs])).getD pubSub

/-- `publish_ind_msg`: the callbacks that are called with the data of the indication, in order;
`none` where the assertion that the RAN function is registered fails. -/
def publishIndMsg (pubSub : PubSub F) (ranFuncId : UInt16) (d : D) : Option (List (F × D)) :=
  match pubSub.findIf (eqRanFuncId ranFuncId) with
  | none => none
  | some _ =>
    -- the value is read through the iterator to the front, not through the one just found
    pubSub.front.map fun start => start.2.map fun sub => (sub.fp, d)

/-- The registry after the registrations of a list, the first one first. -/
def registry (calls : List (UInt16 × SubsRic F)) : PubSub F :=
  calls.foldl (fun pubSub call => registerListenersForRanFuncId pubSub call.1 call.2) .empty

/-- The listeners that were registered for an id, in order. -/
def listeners (calls : List (UInt16 × SubsRic F)) (ranFuncId : UInt16) : List (SubsRic F) :=
  (calls.filter fun call => call.1 = ranFuncId).map Prod.snd

end Operations

/-! ### What the registry holds -/

variable {F D : Type} {calls : List (UInt16 × SubsRic F)} {pubSub : PubSub F}

/-- The registry holds, for the ids of the calls and no others, the listeners in order. -/
structure Registered (calls : List (UInt16 × SubsRic F)) (pubSub : PubSub F) : Prop where
  wellFormed : pubSub.WellFormed cmpRanFuncId
  nodup : (pubSub.entries.map Prod.fst).Nodup
  keys : ∀ id, id ∈ pubSub.entries.map Prod.fst ↔ id ∈ calls.map Prod.fst
  values : ∀ e ∈ pubSub.entries, e.2 = listeners calls e.1

theorem findIf_eq_none_iff {id : UInt16} :
    pubSub.findIf (eqRanFuncId id) = none ↔ id ∉ pubSub.entries.map Prod.fst := by
  rw [AssocTree.findIf, List.find?_eq_none]
  constructor
  · intro h hid
    obtain ⟨e, he, rfl⟩ := List.mem_map.mp hid
    exact h e he (by simp [eqRanFuncId])
  · intro h e he heq
    apply h
    rw [eq_of_beq heq]
    exact List.mem_map_of_mem he

theorem listeners_append (call : UInt16 × SubsRic F) (id : UInt16) :
    listeners (calls ++ [call]) id =
      listeners calls id ++ if call.1 = id then [call.2] else [] := by
  rw [listeners, List.filter_append, List.map_append, listeners]
  by_cases hid : call.1 = id
  · simp [hid]
  · simp [hid]

theorem listeners_eq_nil {id : UInt16} (h : id ∉ calls.map Prod.fst) : listeners calls id = [] := by
  rw [listeners, List.map_eq_nil_iff, List.filter_eq_nil_iff]
  intro call hcall heq
  apply h
  rw [← of_decide_eq_true heq]
  exact List.mem_map_of_mem hcall

theorem registered_empty : Registered ([] : List (UInt16 × SubsRic F)) .empty where
  wellFormed := AssocTree.wellFormed_empty
  nodup := .nil
  keys _ := .rfl
  values _ he := nomatch he

/-- An id that is new gets an entry of its own. -/
theorem Registered.insert (h : Registered calls pubSub) {id : UInt16} (subs : SubsRic F)
    (hid : id ∉ pubSub.entries.map Prod.fst) :
    Registered (calls ++ [(id, subs)]) (pubSub.insert cmpRanFuncId id [subs]) := by
  have hperm := AssocTree.perm_insert h.wellFormed id [subs]
  refine ⟨h.wellFormed.insert id [subs], ?_, ?_, ?_⟩
  · rw [(hperm.map Prod.fst).nodup_iff, List.map_cons]
    exact List.nodup_cons.mpr ⟨hid, h.nodup⟩
  · intro id'
    rw [(hperm.map Prod.fst).mem_iff, List.map_cons, List.mem_cons, h.keys, List.map_append,
      List.mem_append, or_comm]
    simp
  · intro e he
    rw [listeners_append]
    rcases List.mem_cons.mp (hperm.mem_iff.mp he) with rfl | he
    · rw [listeners_eq_nil (mt (h.keys _).mpr hid)]
      simp
    · have hne : id ≠ e.1 := by
        intro heq
        apply hid
        rw [heq]
        exact List.mem_map_of_mem he
      rw [if_neg hne, List.append_nil, h.values e he]

/-- An id that has an entry gets its listener at the end of that entry. -/
theorem Registered.modify (h : Registered calls pubSub) {id : UInt16} (subs : SubsRic F)
    {e : UInt16 × List (SubsRic F)} (he : pubSub.findIf (eqRanFuncId id) = some e) :
    ∃ pubSub', pubSub.modifyIf (eqRanFuncId id) (· ++ [subs]) = some pubSub' ∧
      Registered (calls ++ [(id, subs)]) pubSub' := by
  obtain ⟨pubSub', hmodify, hwf, pre, post, hpre, hpost⟩ :=
    AssocTree.modifyIf_of_findIf h.wellFormed he (· ++ [subs])
  have hid : id = e.1 := eq_of_beq (h.wellFormed.findIf_least he).2.1
  -- no key changes
  have hkeys : pubSub'.entries.map Prod.fst = pubSub.entries.map Prod.fst := by
    rw [hpre, hpost]
    simp
  refine ⟨pubSub', hmodify, hwf, ?_, ?_, ?_⟩
  · rw [hkeys]
    exact h.nodup
  · intro id'
    rw [hkeys, h.keys, List.map_append, List.mem_append]
    constructor
    · exact .inl
    · rintro (hmem | hmem)
      · exact hmem
      · rw [List.mem_singleton.mp hmem, hid, ← h.keys, hpre]
        simp
  · have hnodup := h.nodup
    rw [hpre, List.map_append, List.map_cons, List.nodup_middle, List.nodup_cons] at hnodup
    intro e' he'
    rw [hpost, List.mem_append, List.mem_cons, or_left_comm] at he'
    rw [listeners_append, hid]
    rcases he' with rfl | he'
    · rw [if_pos rfl, h.values e (by simp [hpre])]
    · -- the entries before and behind have other keys
      have hmem : e' ∈ pre ++ post := List.mem_append.mpr he'
      have hne : e.1 ≠ e'.1 := by
        intro heq
        apply hnodup.1
        rw [heq, ← List.map_append]
        exact List.mem_map_of_mem hmem
      rw [if_neg hne, List.append_nil]
      apply h.values
      rw [hpre, List.mem_append, List.mem_cons, or_left_comm]
      exact .inr he'

theorem Registered.registerListeners (h : Registered calls pubSub) (id : UInt16)
    (subs : SubsRic F) :
    Registered (calls ++ [(id, subs)]) (registerListenersForRanFuncId pubSub id subs) := by
  rw [registerListenersForRanFuncId]
  cases hfind : pubSub.findIf (eqRanFuncId id) with
  | none => exact h.insert subs (findIf_eq_none_iff.mp hfind)
  | some e =>
    obtain ⟨pubSub', hmodify, h'⟩ := h.modify subs hfind
    simp only [hmodify, Option.getD_some]
    exact h'

/-- After any calls every entry holds the listeners of its id. -/
theorem registered_registry (calls : List (UInt16 × SubsRic F)) :
    Registered calls (registry calls) := by
  induction calls using List.reverseRecOn with
  | nil => exact registered_empty
  | append_singleton calls call ih =>
    rw [registry, List.foldl_append]
    exact ih.registerListeners call.1 call.2

/-! ### Delivery -/

def SmallestId (calls : List (UInt16 × SubsRic F)) (first : UInt16) : Prop :=
  first ∈ calls.map Prod.fst ∧ ∀ id ∈ calls.map Prod.fst, first ≤ id

theorem Registered.smallestId (h : Registered calls pubSub) {e : UInt16 × List (SubsRic F)}
    (he : pubSub.front = some e) : SmallestId calls e.1 := by
  obtain ⟨rest, hrest⟩ := List.head?_eq_some_iff.mp he
  refine ⟨(h.keys _).mp (by simp [hrest]), ?_⟩
  intro id hid
  obtain ⟨e', he', rfl⟩ := List.mem_map.mp ((h.keys id).mpr hid)
  have hsorted := h.wellFormed.sorted
  rw [hrest, List.pairwise_cons] at hsorted
  rw [hrest, List.mem_cons] at he'
  rcases he' with rfl | he'
  · exact UInt16.le_refl _
  · exact isLE_cmpRanFuncId (hsorted.1 e' he')

/-- An indication with a registered id is delivered to the listeners of the smallest id. -/
theorem publishIndMsg_registry {id : UInt16} (hid : id ∈ calls.map Prod.fst) (d : D) :
    ∃ first, SmallestId calls first ∧
      publishIndMsg (registry calls) id d =
        some ((listeners calls first).map fun sub => (sub.fp, d)) := by
  have h := registered_registry calls
  have hkey := (h.keys id).mpr hid
  obtain ⟨found, hfound⟩ : ∃ e, (registry calls).findIf (eqRanFuncId id) = some e := by
    rw [← Option.ne_none_iff_exists', Ne, findIf_eq_none_iff, not_not]
    exact hkey
  have hne : (registry calls).entries ≠ [] := by
    intro hnil
    rw [hnil] at hkey
    cases hkey
  obtain ⟨start, hstart⟩ : ∃ e, (registry calls).front = some e :=
    ⟨_, List.head?_eq_some_head hne⟩
  refine ⟨start.1, h.smallestId hstart, ?_⟩
  have hvalue := h.values start (List.mem_of_mem_head? hstart)
  rw [publishIndMsg, hfound, hstart, ← hvalue]
  rfl

theorem SmallestId.unique {a b : UInt16} (ha : SmallestId calls a) (hb : SmallestId calls b) :
    a = b :=
  UInt16.le_antisymm (ha.2 b hb.1) (hb.2 a ha.1)

/-- The callbacks registered for the id of an indication are called, each once and in order, and
no others. -/
def DeliversToListeners (calls : List (UInt16 × SubsRic F)) (id : UInt16) (d : D) : Prop :=
  publishIndMsg (registry calls) id d = some ((listeners calls id).map fun sub => (sub.fp, d))

theorem map_callback (l : List (SubsRic F)) (d : D) :
    l.map (fun sub => (sub.fp, d)) = (l.map SubsRic.fp).map fun fp => (fp, d) := by
  rw [List.map_map]
  rfl

theorem deliversToListeners_iff (calls : List (UInt16 × SubsRic F)) (id : UInt16) (d : D)
    (hid : id ∈ calls.map Prod.fst) :
    DeliversToListeners calls id d ↔ ∀ first, SmallestId calls first →
      (listeners calls first).map SubsRic.fp = (listeners calls id).map SubsRic.fp := by
  obtain ⟨first, hfirst, hpublish⟩ := publishIndMsg_registry hid d
  have hinj : Function.Injective fun fp : F => (fp, d) := fun _ _ heq => (Prod.mk.inj heq).1
  rw [DeliversToListeners, hpublish, Option.some_inj, map_callback, map_callback,
    hinj.list_map.eq_iff]
  constructor
  · intro h first' hfirst'
    rw [hfirst'.unique hfirst]
    exact h
  · intro h
    exact h first hfirst

def twoModels : List (UInt16 × SubsRic ℕ) := [(142, ⟨"mac", 1⟩), (143, ⟨"rlc", 2⟩)]

theorem deliversToListeners_iff_twoModels :
    DeliversToListeners twoModels 142 () ↔ ∀ first, SmallestId twoModels first →
      (listeners twoModels first).map SubsRic.fp = (listeners twoModels 142).map SubsRic.fp :=
  deliversToListeners_iff twoModels 142 () (by decide)

/-- An indication of the second service model calls the listener of the first. -/
theorem not_deliversToListeners_twoModels : ¬ DeliversToListeners twoModels 143 () := by
  unfold DeliversToListeners
  decide

end LlmHric.Flexric
