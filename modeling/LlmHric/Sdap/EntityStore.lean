import LlmHric.Library.KeyedList
import LlmHric.Library.Outcome
import LlmHric.Sdap.QosFlowMapping
import Mathlib.Algebra.Group.Nat.Defs

/-! The SDAP entities of all UEs are in one linked list. A new entity is put at the front. One
function removes the entity of a PDU session, another one removes all entities of a UE. The first
one looks at a bounded number of entities, and it does not check whether the list is empty. -/

namespace LlmHric.Sdap

open Checked SdapEntity

variable {e e' : SdapEntity} {sdap : SdapConfig} {l l' : List SdapEntity} {ueId : ℕ}
  {pdusessionId : ℤ}

namespace SdapEntity

/-- The ids of an entity. -/
def key (e : SdapEntity) : ℕ × ℤ := (e.ueId, e.pdusessionId)

theorem isOf_iff : e.isOf ueId pdusessionId = true ↔ e.key = (ueId, pdusessionId) := by
  simp [isOf, key]

theorem isOf_eq : e.isOf ueId pdusessionId = decide (e.key = (ueId, pdusessionId)) := by
  simp [isOf, key]

theorem addQosFlowsToDrb_frame {α : Type*} {g : SdapEntity → α}
    (htable : ∀ (e : SdapEntity) qfi2drbTable, g { e with qfi2drbTable } = g e) (e : SdapEntity)
    (sdap : SdapConfig) : g (e.addQosFlowsToDrb sdap) = g e := by
  rw [addQosFlowsToDrb]
  induction sdap.mappedQFIs2Add generalizing e with
  | nil => rfl
  | cons q l ih =>
    rw [List.foldl_cons, ih]
    split_ifs
    · exact htable _ _
    · rfl

theorem addEntity_eq_some {isGnb : Bool} (h : addEntity isGnb ueId sdap = some e) :
    e = addQosFlowsToDrb
      ⟨ueId, sdap.pdusessionId, isGnb, sdap.role ≠ noSdapHeader,
        if sdap.defaultDRB then sdap.drbId else 0, fun _ => noMappingRule, []⟩ sdap := by
  rw [addEntity] at h
  by_cases hassert : sdap.role = noSdapHeader ∧ ¬ sdap.mappedQFIs2Add.length ≤ 1
  · rw [if_pos hassert] at h
    exact absurd h (Option.some_ne_none e).symm
  · rw [if_neg hassert] at h
    exact (Option.some.inj h).symm

theorem key_addEntity {isGnb : Bool} (h : addEntity isGnb ueId sdap = some e) :
    e.key = (ueId, sdap.pdusessionId) := by
  rw [addEntity_eq_some h]
  exact addQosFlowsToDrb_frame (g := key) (fun _ _ => rfl) _ _

theorem key_qfi2drbMapUpdate (h : e.qfi2drbMapUpdate sdap = some e') : e'.key = e.key :=
  qfi2drbMapUpdate_frame (g := key) (fun _ _ => rfl) (fun _ _ => rfl) h

end SdapEntity

/-- `NR_MAX_NB_PDU_SESSIONS` -/
def nrMaxNbPduSessions : ℤ := 256

/-- `SDAP_MAX_NUM_OF_ENTITIES`: 32 DRBs for each of 40 UEs. -/
def sdapMaxNumOfEntities : ℕ := 1280

/-- `SDAP_MAX_UE_ID` -/
def sdapMaxUeId : ℕ := 65536

/-- Unlink the entity behind those of `before`. Without one the pointer to the previous entity is
null. -/
def unlink (before rest : List SdapEntity) : Outcome (List SdapEntity) :=
  if before = [] then .fault .nullPointer else .done (before ++ rest)

/-- The loop of `nr_sdap_delete_entity` and the removal after it: `ptr` is the entity behind those
of `before`, and `rest` follows it. -/
def deleteLoop (ueId : ℕ) (pdusessionId : ℤ) :
    ℕ → List SdapEntity → SdapEntity → List SdapEntity → Outcome (Bool × List SdapEntity)
  | upperBound, before, ptr, next :: rest =>
    if ¬ ptr.isOf ueId pdusessionId ∧ upperBound < sdapMaxNumOfEntities then
      deleteLoop ueId pdusessionId (upperBound + 1) (before ++ [ptr]) next rest
    else if ptr.isOf ueId pdusessionId then do
      return (true, ← unlink before (next :: rest))
    else .done (false, before ++ ptr :: next :: rest)
  | _, before, ptr, [] =>
    if ptr.isOf ueId pdusessionId then do return (true, ← unlink before [])
    else .done (false, before ++ [ptr])

/-- `nr_sdap_delete_entity`: the value it returns, and the list it leaves. -/
def deleteEntity (l : List SdapEntity) (ueId : ℕ) (pdusessionId : ℤ) :
    Outcome (Bool × List SdapEntity) :=
  match l with
  | [] =>
    -- the two conditions are connected by an and: with an id in range the call goes on
    if pdusessionId < 0 ∨ pdusessionId > nrMaxNbPduSessions then .done (false, [])
    else .fault .nullPointer
  | e :: rest =>
    if e.isOf ueId pdusessionId then .done (true, rest)
    else deleteLoop ueId pdusessionId 0 [] e rest

/-- The second loop of `nr_sdap_delete_ue_entities`. Its bound is on a counter that stays 0. -/
def deleteUeLoop (ueId : ℕ) :
    List SdapEntity → List SdapEntity → Outcome (Bool × List SdapEntity)
  | before, [] => .done (false, before)
  | before, e :: rest =>
    if e.ueId ≠ ueId then deleteUeLoop ueId (before ++ [e]) rest
    else do
      let _ ← unlink before rest
      let (_, l) ← deleteUeLoop ueId before rest
      return (true, l)

/-- `nr_sdap_delete_ue_entities`: the value it returns, and the list it leaves. -/
def deleteUeEntities (l : List SdapEntity) (ueId : ℕ) : Outcome (Bool × List SdapEntity) :=
  if l = [] ∧ ueId * (ueId + 2 ^ 64 - sdapMaxUeId) % 2 ^ 64 > 0 then .done (false, l)
  else do
    -- the entities of the UE at the front, then the others
    let (ret, l') ← deleteUeLoop ueId [] (l.dropWhile fun e => e.ueId = ueId)
    return (ret || (l.head?.any fun e => e.ueId = ueId), l')

/-! ### What the removals leave -/

theorem unlink_of_ne_nil {before : List SdapEntity} (h : before ≠ []) (rest : List SdapEntity) :
    unlink before rest = .done (before ++ rest) := if_neg h

/-- The loop looks at as many entities as the bound has left, and at one more. -/
theorem deleteLoop_eq {upperBound : ℕ} {before : List SdapEntity} {ptr : SdapEntity}
    {rest : List SdapEntity} (hbound : upperBound ≤ sdapMaxNumOfEntities)
    (hprev : ptr.isOf ueId pdusessionId = true → before ≠ []) :
    deleteLoop ueId pdusessionId upperBound before ptr rest =
      if ((ptr :: rest).take (sdapMaxNumOfEntities - upperBound + 1)).any
        (isOf ueId pdusessionId) then
        .done (true, before ++ (ptr :: rest).eraseP (isOf ueId pdusessionId))
      else .done (false, before ++ ptr :: rest) := by
  induction rest generalizing upperBound before ptr with
  | nil =>
    rw [deleteLoop]
    by_cases hptr : ptr.isOf ueId pdusessionId = true
    · rw [if_pos hptr, unlink_of_ne_nil (hprev hptr)]
      simp [hptr]
    · simp [hptr]
  | cons next rest ih =>
    rw [deleteLoop]
    by_cases hptr : ptr.isOf ueId pdusessionId = true
    · rw [if_neg (fun h => h.1 hptr), if_pos hptr, unlink_of_ne_nil (hprev hptr)]
      simp [hptr]
    · by_cases hlt : upperBound < sdapMaxNumOfEntities
      · rw [if_pos ⟨hptr, hlt⟩, ih hlt fun _ => List.append_ne_nil_of_right_ne_nil _ (by simp)]
        -- one entity further with one less to look at
        have htake : sdapMaxNumOfEntities - upperBound =
            sdapMaxNumOfEntities - (upperBound + 1) + 1 := by omega
        have hany : ∀ n, ((ptr :: next :: rest).take (n + 1)).any (isOf ueId pdusessionId) =
            ((next :: rest).take n).any (isOf ueId pdusessionId) := by
          intro n
          rw [List.take_succ_cons, List.any_cons, eq_false_of_ne_true hptr, Bool.false_or]
        rw [htake, hany, List.eraseP_cons_of_neg hptr]
        simp only [List.append_assoc, List.singleton_append]
      · have hzero : sdapMaxNumOfEntities - upperBound = 0 := by omega
        rw [if_neg fun h => hlt h.2, if_neg hptr, hzero]
        simp [hptr]

/-- The removal from a list with entities looks at the first 1281 of them. -/
theorem deleteEntity_eq (hl : l ≠ []) (ueId : ℕ) (pdusessionId : ℤ) :
    deleteEntity l ueId pdusessionId =
      if (l.take (sdapMaxNumOfEntities + 1)).any (isOf ueId pdusessionId) then
        .done (true, l.eraseP (isOf ueId pdusessionId))
      else .done (false, l) := by
  cases l with
  | nil => exact absurd rfl hl
  | cons e rest =>
    rw [deleteEntity]
    by_cases he : e.isOf ueId pdusessionId = true
    · simp [he]
    · rw [if_neg he, deleteLoop_eq (Nat.zero_le _) fun h => absurd h he]
      rfl

theorem deleteUeLoop_eq {before : List SdapEntity}
    (hprev : before = [] → ∀ e ∈ l.head?, e.ueId ≠ ueId) :
    deleteUeLoop ueId before l =
      .done (l.any fun e => e.ueId = ueId, before ++ l.filter fun e => e.ueId ≠ ueId) := by
  induction l generalizing before with
  | nil => simp [deleteUeLoop]
  | cons e rest ih =>
    rw [deleteUeLoop]
    by_cases he : e.ueId = ueId
    · have hbefore : before ≠ [] := fun h => hprev h e rfl he
      rw [if_neg (not_not.mpr he), unlink_of_ne_nil hbefore, Outcome.done_bind,
        ih fun h => absurd h hbefore]
      simp [he]
    · rw [if_pos he, ih fun h => absurd h (by simp)]
      simp [he]

theorem filter_dropWhile {α : Type} (p : α → Bool) (l : List α) :
    (l.dropWhile p).filter (fun x => !p x) = l.filter fun x => !p x := by
  induction l with
  | nil => rfl
  | cons x l ih =>
    by_cases hx : p x = true
    · rw [List.dropWhile_cons_of_pos hx, List.filter_cons_of_neg (by simp [hx]), ih]
    · rw [List.dropWhile_cons_of_neg hx]

theorem any_dropWhile_or_head? {α : Type} (p : α → Bool) (l : List α) :
    ((l.dropWhile p).any p || l.head?.any p) = l.any p := by
  cases l with
  | nil => rfl
  | cons x l =>
    by_cases hx : p x = true
    · simp [hx]
    · rw [List.dropWhile_cons_of_neg hx]
      simp [hx]

theorem deleteUeEntities_eq (l : List SdapEntity) (ueId : ℕ) :
    deleteUeEntities l ueId =
      .done (l.any fun e => e.ueId = ueId, l.filter fun e => e.ueId ≠ ueId) := by
  rw [deleteUeEntities]
  split_ifs with hempty
  · rw [hempty.1]
    rfl
  · -- the second loop starts at an entity of another UE
    have hhead : ∀ e ∈ (l.dropWhile fun e => e.ueId = ueId).head?, e.ueId ≠ ueId := by
      intro e he
      have hnot := List.head?_dropWhile_not (fun e : SdapEntity => decide (e.ueId = ueId)) l
      rw [Option.mem_def.mp he] at hnot
      simpa using hnot
    have hfilter := filter_dropWhile (fun e : SdapEntity => decide (e.ueId = ueId)) l
    simp only [← decide_not] at hfilter
    rw [deleteUeLoop_eq fun _ => hhead]
    simp only [Outcome.done_bind, Outcome.pure_eq, hfilter, List.nil_append,
      any_dropWhile_or_head? fun e : SdapEntity => decide (e.ueId = ueId)]

/-! ### The store -/

/-- The calls that change the store. -/
inductive StoreOp
  | addmod (isGnb : Bool) (ueId : ℕ) (sdap : SdapConfig)
  | deleteEntity (ueId : ℕ) (pdusessionId : ℤ)
  | deleteUeEntities (ueId : ℕ)

/-- What holds of a store: ids are unique, and exactly the stored entities are found. -/
structure StoreOk (l : List SdapEntity) : Prop where
  nodup : (l.map key).Nodup
  find : ∀ ueId pdusessionId e,
    getEntity l ueId pdusessionId = some e ↔ e ∈ l ∧ e.key = (ueId, pdusessionId)

namespace StoreOp

/-- A call: the value it returns, if any, and the list it leaves. -/
def call (l : List SdapEntity) : StoreOp → Outcome (Option Bool × List SdapEntity)
  | addmod isGnb ueId sdap =>
    match addmodEntity isGnb ueId l sdap with
    | some l' => .done (none, l')
    | none => .fault .assertion
  | deleteEntity ueId pdusessionId => do
    let (ret, l') ← Sdap.deleteEntity l ueId pdusessionId
    return (some ret, l')
  | deleteUeEntities ueId => do
    let (ret, l') ← Sdap.deleteUeEntities l ueId
    return (some ret, l')

/-- What a call must do. A configuration that an assertion rejects ends the program; any other one
leaves an entity with its ids and does not touch the others. The removals remove what they name, and
say whether they have removed anything. -/
def Meets (l : List SdapEntity) : StoreOp → Prop
  | addmod isGnb ueId sdap =>
    (addmod isGnb ueId sdap).call l = .fault .assertion ∨
      ∃ l', (addmod isGnb ueId sdap).call l = .done (none, l') ∧
        (ueId, sdap.pdusessionId) ∈ l'.map key ∧
        l'.filter (fun e => e.key ≠ (ueId, sdap.pdusessionId)) =
          l.filter fun e => e.key ≠ (ueId, sdap.pdusessionId)
  | deleteEntity ueId pdusessionId =>
    (deleteEntity ueId pdusessionId).call l =
      .done (some (l.any fun e => e.key = (ueId, pdusessionId)),
        l.filter fun e => e.key ≠ (ueId, pdusessionId))
  | deleteUeEntities ueId =>
    (deleteUeEntities ueId).call l =
      .done (some (l.any fun e => e.ueId = ueId), l.filter fun e => e.ueId ≠ ueId)

/-- A removal of one entity finds a list with entities or has an id out of range, and the entity
with its ids is among the first 1281, if there is one. -/
def Reaches (l : List SdapEntity) : StoreOp → Prop
  | deleteEntity ueId pdusessionId =>
    (l = [] → pdusessionId < 0 ∨ pdusessionId > nrMaxNbPduSessions) ∧
      (ueId, pdusessionId) ∉ (l.drop (sdapMaxNumOfEntities + 1)).map key
  | _ => True

end StoreOp

/-- The store after a sequence of calls. -/
def runStore (ops : List StoreOp) : Outcome (List SdapEntity) :=
  ops.foldlM (fun l op => do return (← op.call l).2) []

theorem isOf_eq_fun (ueId : ℕ) (pdusessionId : ℤ) :
    isOf ueId pdusessionId = fun e => decide (e.key = (ueId, pdusessionId)) := by
  funext e
  exact isOf_eq

theorem storeOk_of_nodup (h : (l.map key).Nodup) : StoreOk l := by
  refine ⟨h, fun ueId pdusessionId e => ?_⟩
  rw [getEntity, isOf_eq_fun]
  exact KeyedList.find?_key_eq_some_iff h

/-! ### The calls -/

theorem getEntity_replaceF {p : ℤ} (hget : getEntity l ueId p = some e)
    (hkey : ∀ p, e'.isOf ueId p = e.isOf ueId p) (pdusessionId : ℤ) :
    getEntity (l.replaceF fun x => if isOf ueId p x then some e' else none) ueId pdusessionId =
      if pdusessionId = p then some e' else getEntity l ueId pdusessionId := by
  have hsession : ∀ x : SdapEntity, x.isOf ueId p = true →
      x.isOf ueId pdusessionId = decide (p = pdusessionId) := by
    intro x hx
    simp only [isOf, decide_eq_true_eq] at hx
    simp [isOf, hx]
  induction l with
  | nil => exact absurd hget (Option.some_ne_none e).symm
  | cons x l ih =>
    rw [getEntity, List.find?_cons] at hget
    rw [List.replaceF_cons]
    cases hx : x.isOf ueId p with
    | true =>
      rw [hx] at hget
      obtain rfl := Option.some.inj hget
      have hx' := hsession x hx
      simp only [if_true, getEntity, List.find?_cons, hkey, hx']
      by_cases hp : pdusessionId = p
      · simp [hp]
      · simp [hp, Ne.symm hp]
    | false =>
      rw [hx] at hget
      simp only [getEntity] at ih hget ⊢
      simp only [Bool.false_eq_true, if_false, List.find?_cons, ih hget]
      by_cases hp : pdusessionId = p
      · rw [hp, hx]
      · rw [if_neg hp, if_neg hp]

/-- Replacing an entity by one with the same ids. -/
theorem map_key_replaceF (hget : getEntity l ueId pdusessionId = some e) (hkey : e'.key = e.key) :
    (l.replaceF fun x => if isOf ueId pdusessionId x then some e' else none).map key =
      l.map key := by
  induction l with
  | nil => rfl
  | cons x l ih =>
    rw [getEntity, List.find?_cons] at hget
    rw [List.replaceF_cons]
    cases hx : x.isOf ueId pdusessionId with
    | true =>
      rw [hx] at hget
      obtain rfl := Option.some.inj hget
      simp [hkey]
    | false =>
      rw [hx] at hget
      simp [ih hget]

/-- The entities with other ids are left as they are. -/
theorem filter_replaceF (hkey : e'.key = (ueId, pdusessionId)) :
    (l.replaceF fun x => if isOf ueId pdusessionId x then some e' else none).filter
        (fun e => e.key ≠ (ueId, pdusessionId)) =
      l.filter fun e => e.key ≠ (ueId, pdusessionId) := by
  induction l with
  | nil => rfl
  | cons x l ih =>
    rw [List.replaceF_cons]
    by_cases hx : x.key = (ueId, pdusessionId)
    · rw [isOf_iff.mpr hx]
      simp [hkey, hx]
    · rw [eq_false_of_ne_true (mt isOf_iff.mp hx)]
      simpa [hx] using ih

/-- The ids of a store after a configuration. -/
theorem map_key_addmodEntity {isGnb : Bool} (h : addmodEntity isGnb ueId l sdap = some l') :
    l'.map key = if (ueId, sdap.pdusessionId) ∈ l.map key then l.map key
      else (ueId, sdap.pdusessionId) :: l.map key := by
  rw [addmodEntity] at h
  cases hget : getEntity l ueId sdap.pdusessionId with
  | some e =>
    rw [hget] at h
    obtain ⟨e', he', rfl⟩ := Option.map_eq_some_iff.mp h
    have hkey : e.key = (ueId, sdap.pdusessionId) := isOf_iff.mp (List.find?_some hget)
    rw [map_key_replaceF hget (key_qfi2drbMapUpdate he'), if_pos]
    rw [← hkey]
    exact List.mem_map_of_mem (List.mem_of_find?_eq_some hget)
  | none =>
    rw [hget] at h
    obtain ⟨e', he', rfl⟩ := Option.map_eq_some_iff.mp h
    rw [getEntity, isOf_eq_fun, KeyedList.find?_key_eq_none_iff] at hget
    rw [if_neg hget, List.map_cons, key_addEntity he']

theorem filter_addmodEntity {isGnb : Bool} (h : addmodEntity isGnb ueId l sdap = some l') :
    l'.filter (fun e => e.key ≠ (ueId, sdap.pdusessionId)) =
      l.filter fun e => e.key ≠ (ueId, sdap.pdusessionId) := by
  rw [addmodEntity] at h
  cases hget : getEntity l ueId sdap.pdusessionId with
  | some e =>
    rw [hget] at h
    obtain ⟨e', he', rfl⟩ := Option.map_eq_some_iff.mp h
    apply filter_replaceF
    rw [key_qfi2drbMapUpdate he']
    exact isOf_iff.mp (List.find?_some hget)
  | none =>
    rw [hget] at h
    obtain ⟨e', he', rfl⟩ := Option.map_eq_some_iff.mp h
    rw [List.filter_cons_of_neg]
    simp [key_addEntity he']

theorem meets_addmod (isGnb : Bool) (ueId : ℕ) (sdap : SdapConfig) (l : List SdapEntity) :
    (StoreOp.addmod isGnb ueId sdap).Meets l := by
  rw [StoreOp.Meets, StoreOp.call]
  cases h : addmodEntity isGnb ueId l sdap with
  | none => exact .inl rfl
  | some l' =>
    refine .inr ⟨l', rfl, ?_, filter_addmodEntity h⟩
    rw [map_key_addmodEntity h]
    split_ifs with hmem
    · exact hmem
    · exact List.mem_cons_self

theorem any_key_iff {α β : Type} [DecidableEq β] {f : α → β} {k : β} {l : List α} :
    (l.any fun x => f x = k) = true ↔ k ∈ l.map f := by
  simp

theorem meets_deleteUeEntities (ueId : ℕ) (l : List SdapEntity) :
    (StoreOp.deleteUeEntities ueId).Meets l := by
  rw [StoreOp.Meets, StoreOp.call, deleteUeEntities_eq]
  rfl

/-- The entity is found among the first ones exactly when it is not behind them. -/
theorem meets_deleteEntity_iff (hl : (l.map key).Nodup) (ueId : ℕ) (pdusessionId : ℤ) :
    (StoreOp.deleteEntity ueId pdusessionId).Meets l ↔
      (StoreOp.deleteEntity ueId pdusessionId).Reaches l := by
  rw [StoreOp.Meets, StoreOp.call, StoreOp.Reaches]
  cases l with
  | nil =>
    rw [deleteEntity]
    split_ifs with hrange
    · exact iff_of_true rfl ⟨fun _ => hrange, List.not_mem_nil⟩
    · exact iff_of_false nofun fun h => hrange (h.1 rfl)
  | cons e rest =>
    have hne := List.cons_ne_nil e rest
    rw [deleteEntity_eq hne, isOf_eq_fun, KeyedList.eraseP_key_eq_filter hl]
    generalize e :: rest = l at hl hne ⊢
    have hsplit : l.map key = (l.take (sdapMaxNumOfEntities + 1)).map key ++
        (l.drop (sdapMaxNumOfEntities + 1)).map key := by
      rw [← List.map_append, List.take_append_drop]
    by_cases hfirst : (ueId, pdusessionId) ∈ (l.take (sdapMaxNumOfEntities + 1)).map key
    · -- an entity in front is the only one with its ids
      have hmem : (ueId, pdusessionId) ∈ l.map key := by
        rw [hsplit]
        exact List.mem_append_left _ hfirst
      rw [hsplit, List.nodup_append] at hl
      rw [if_pos (any_key_iff.mpr hfirst), any_key_iff.mpr hmem]
      exact iff_of_true rfl ⟨fun h => absurd h hne, fun h => hl.2.2 _ hfirst _ h rfl⟩
    · have hmem : (ueId, pdusessionId) ∈ l.map key ↔
          (ueId, pdusessionId) ∈ (l.drop (sdapMaxNumOfEntities + 1)).map key := by
        rw [hsplit, List.mem_append]
        exact or_iff_right hfirst
      rw [if_neg (mt any_key_iff.mp hfirst), ← hmem]
      constructor
      · intro h
        refine ⟨fun h => absurd h hne, ?_⟩
        have hret := (Prod.mk.inj (Outcome.done.inj h)).1
        exact fun hmem => Bool.noConfusion
          ((Option.some.inj hret).trans (any_key_iff.mpr hmem))
      · rintro ⟨-, hmem⟩
        rw [eq_false_of_ne_true (mt any_key_iff.mp hmem), List.filter_eq_self.mpr]
        · rfl
        · intro e he
          refine decide_eq_true fun heq => hmem ?_
          rw [← heq]
          exact List.mem_map_of_mem he

/-! ### Runs -/

/-- No call makes two entities with the same ids, even where it does not do what it must. -/
theorem nodup_call {op : StoreOp} {ret : Option Bool} (hl : (l.map key).Nodup)
    (h : op.call l = .done (ret, l')) : (l'.map key).Nodup := by
  cases op with
  | addmod isGnb ueId sdap =>
    rw [StoreOp.call] at h
    split at h
    · next hadd =>
      obtain ⟨-, rfl⟩ := Prod.mk.inj (Outcome.done.inj h)
      rw [map_key_addmodEntity hadd]
      split_ifs with hmem
      · exact hl
      · exact List.nodup_cons.mpr ⟨hmem, hl⟩
    · cases h
  | deleteEntity ueId pdusessionId =>
    obtain ⟨⟨b, l''⟩, hdelete, hret⟩ := Outcome.bind_eq_done_iff.mp h
    obtain ⟨-, rfl⟩ := Prod.mk.inj (Outcome.done.inj hret)
    cases l with
    | nil =>
      rw [deleteEntity] at hdelete
      split_ifs at hdelete
      obtain ⟨-, rfl⟩ := Prod.mk.inj (Outcome.done.inj hdelete)
      exact .nil
    | cons e rest =>
      rw [deleteEntity_eq (List.cons_ne_nil e rest)] at hdelete
      split_ifs at hdelete
      · obtain ⟨-, rfl⟩ := Prod.mk.inj (Outcome.done.inj hdelete)
        exact hl.sublist (List.eraseP_sublist.map key)
      · obtain ⟨-, rfl⟩ := Prod.mk.inj (Outcome.done.inj hdelete)
        exact hl
  | deleteUeEntities ueId =>
    rw [StoreOp.call, deleteUeEntities_eq] at h
    obtain ⟨-, rfl⟩ := Prod.mk.inj (Outcome.done.inj h)
    exact KeyedList.nodup_map_filter hl _

theorem runStore_concat {ops : List StoreOp} {op : StoreOp}
    (h : runStore (ops ++ [op]) = .done l') :
    ∃ l ret, runStore ops = .done l ∧ op.call l = .done (ret, l') := by
  rw [runStore, List.foldlM_append] at h
  obtain ⟨l, hl, h⟩ := Outcome.bind_eq_done_iff.mp h
  simp only [List.foldlM_cons, List.foldlM_nil, bind_pure] at h
  obtain ⟨⟨ret, l''⟩, hcall, hret⟩ := Outcome.bind_eq_done_iff.mp h
  obtain rfl := Outcome.done.inj hret
  exact ⟨l, ret, hl, hcall⟩

/-- The store is in order after any calls. -/
theorem storeOk_runStore {ops : List StoreOp} (h : runStore ops = .done l) : StoreOk l := by
  apply storeOk_of_nodup
  induction ops using List.reverseRecOn generalizing l with
  | nil =>
    obtain rfl := Outcome.done.inj h
    exact .nil
  | append_singleton ops op ih =>
    obtain ⟨l₀, ret, hl₀, hcall⟩ := runStore_concat h
    exact nodup_call (ih hl₀) hcall

theorem meets_iff_reaches {op : StoreOp} (hl : StoreOk l) : op.Meets l ↔ op.Reaches l := by
  cases op with
  | addmod isGnb ueId sdap => exact iff_of_true (meets_addmod isGnb ueId sdap l) trivial
  | deleteEntity ueId pdusessionId => exact meets_deleteEntity_iff hl.nodup ueId pdusessionId
  | deleteUeEntities ueId => exact iff_of_true (meets_deleteUeEntities ueId l) trivial

/-- All along a sequence of calls the store is in order, and each call does what it must. -/
def StoreWorks (ops : List StoreOp) : Prop :=
  (∀ pre l, pre <+: ops → runStore pre = .done l → StoreOk l) ∧
    ∀ pre op l, pre ++ [op] <+: ops → runStore pre = .done l → op.Meets l

/-- A sequence of calls works exactly when no removal of one entity meets an empty list with an id
in range, or looks for an entity that is stored behind the first 1281. -/
theorem storeWorks_iff (ops : List StoreOp) :
    StoreWorks ops ↔
      ∀ pre op l, pre ++ [op] <+: ops → runStore pre = .done l → op.Reaches l := by
  constructor
  · rintro ⟨-, hmeets⟩ pre op l hpre hl
    exact (meets_iff_reaches (storeOk_runStore hl)).mp (hmeets pre op l hpre hl)
  · intro hreaches
    refine ⟨fun pre l _ hl => storeOk_runStore hl, fun pre op l hpre hl => ?_⟩
    exact (meets_iff_reaches (storeOk_runStore hl)).mpr (hreaches pre op l hpre hl)

/-- The first call removes a session from the empty store. -/
theorem not_storeWorks_delete : ¬ StoreWorks [.deleteEntity 1 1] := by
  intro h
  have hmeets := h.2 [] (.deleteEntity 1 1) [] (List.prefix_refl _) rfl
  have hnull : (StoreOp.deleteEntity 1 1).call [] = .fault .nullPointer := rfl
  rw [StoreOp.Meets, hnull] at hmeets
  cases hmeets

end LlmHric.Sdap
