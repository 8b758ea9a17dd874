import LlmHric.Flexric.ArrayExtent
import LlmHric.Flexric.Bimap
import LlmHric.Flexric.Ids
import LlmHric.Library.Run
import Mathlib.Data.List.Nodup

/-! The near-RT RIC keeps three registries of the E2 nodes: the addresses of the nodes at its end
point, the list of connected nodes, and the map of the iApp from nodes to their RAN functions. A
setup request writes all three, and the shutdown of an association removes its node from all three.
The three writers treat a node that is already there differently: the end point stores a second
pair, the list a second entry, and the iApp replaces. The list is a growing array, which may leave
its block after it has shrunk. -/

namespace LlmHric.Flexric

/-- The registries of the near-RT RIC. The RAN functions and component configurations of a node
are a value of `Rf`. -/
structure NodeRegistry (Rf : Type) where
  /-- `map_e2_node_sockaddr_t` of the end point -/
  e2NodeSad : BiMap GlobalE2NodeId SctpInfo
  /-- `conn_e2_nodes` of the RIC -/
  connE2Nodes : List GlobalE2NodeId
  /-- The array that the list is kept in -/
  connBlock : Extent
  /-- `node_to_rf` of the iApp -/
  nodeToRf : AssocTree GlobalE2NodeId Rf

namespace NodeRegistry

variable {Rf : Type}

/-- `sizeof(e2_node_t)` -/
def e2NodeSize : ℕ := 48

/-- `init_near_ric` and `init_e42_iapp` -/
def init : NodeRegistry Rf := ⟨.empty, [], .init e2NodeSize, .empty⟩

/-- `add_map_e2_node_sad` -/
def addMapE2NodeSad (m : BiMap GlobalE2NodeId SctpInfo) (id : GlobalE2NodeId) (info : SctpInfo) :
    BiMap GlobalE2NodeId SctpInfo :=
  BiMap.insert cmpGlobalE2NodeId cmpSctpInfo m id info

/-- `rm_map_sad_e2_node` -/
def rmMapSadE2Node (m : BiMap GlobalE2NodeId SctpInfo) (info : SctpInfo) :
    Option (GlobalE2NodeId × BiMap GlobalE2NodeId SctpInfo) :=
  BiMap.extractRight cmpGlobalE2NodeId cmpSctpInfo m info

/-- `add_reg_e2_node`: a node that is registered is replaced. -/
def addRegE2Node (t : AssocTree GlobalE2NodeId Rf) (id : GlobalE2NodeId) (rf : Rf) :
    Option (AssocTree GlobalE2NodeId Rf) :=
  if t.size > 0 then
    match t.findIf (eqGlobalE2NodeId id) with
    | none => some (t.insert cmpGlobalE2NodeId id rf)
    | some _ =>
      -- "Replacing already registered E2 Node after duplicate E2 setup"
      match t.extract cmpGlobalE2NodeId id with
      | none => none
      | some (_, t') => some (t'.insert cmpGlobalE2NodeId id rf)
  else some (t.insert cmpGlobalE2NodeId id rf)

/-- `rm_reg_e2_node` -/
def rmRegE2Node (t : AssocTree GlobalE2NodeId Rf) (id : GlobalE2NodeId) :
    Option (AssocTree GlobalE2NodeId Rf) :=
  t.freeIf (eqGlobalE2NodeId id)

/-- `find_map_e2_node_sad`; `none` when the node is not found. -/
def findMapE2NodeSad (s : NodeRegistry Rf) (id : GlobalE2NodeId) : Option SctpInfo :=
  (s.e2NodeSad.left.findIf (eqGlobalE2NodeId id)).map (·.2)

/-- The registration of the address in `sctp_msg_arrived_event`, then
`e2ap_handle_setup_request_ric` -/
def handleSetup (s : NodeRegistry Rf) (id : GlobalE2NodeId) (info : SctpInfo) (rf : Rf) :
    Option (NodeRegistry Rf) :=
  match addRegE2Node s.nodeToRf id rf with
  | none => none
  | some nodeToRf =>
    -- unlike the iApp, neither the end point nor the list looks for an earlier entry
    some ⟨addMapE2NodeSad s.e2NodeSad id info, s.connE2Nodes ++ [id],
      s.connBlock.step e2NodeSize .push, nodeToRf⟩

/-- `notification_handle_ric`: the first entry of the list with the node's id is erased. -/
def handleShutdown (s : NodeRegistry Rf) (info : SctpInfo) : Option (NodeRegistry Rf) :=
  match rmMapSadE2Node s.e2NodeSad info with
  | none => none
  | some (id, e2NodeSad) =>
    match s.connE2Nodes.find? fun n => eqGlobalE2NodeId n id with
    -- the handler asserts that the node is in the list
    | none => none
    | some _ =>
      match rmRegE2Node s.nodeToRf id with
      | none => none
      | some nodeToRf =>
        some ⟨e2NodeSad, s.connE2Nodes.eraseP fun n => eqGlobalE2NodeId n id,
          s.connBlock.step e2NodeSize .pop, nodeToRf⟩

/-- What happens at the near-RT RIC. -/
inductive Event (Rf : Type)
  /-- A setup request of a node, with the peer it comes from. -/
  | setup (id : GlobalE2NodeId) (info : SctpInfo) (rf : Rf)
  /-- The association with a peer is shut down. -/
  | shutdown (info : SctpInfo)

/-- One event. A setup request comes from a peer that is not registered for another node. -/
inductive RegistryStep : Event Rf → NodeRegistry Rf → NodeRegistry Rf → Prop
  | setup {s t : NodeRegistry Rf} {id : GlobalE2NodeId} {info : SctpInfo} {rf : Rf} :
      (∀ e ∈ s.e2NodeSad.left.entries, e.2 = info → e.1 = id) →
      s.handleSetup id info rf = some t → RegistryStep (.setup id info rf) s t
  | shutdown {s t : NodeRegistry Rf} {info : SctpInfo} :
      s.handleShutdown info = some t → RegistryStep (.shutdown info) s t

/-- A run of the near-RT RIC. -/
abbrev RegistryRun (tr : List (Event Rf)) (s : NodeRegistry Rf) : Prop :=
  Run.Reach RegistryStep (· = init) tr s

/-- The effect of an event on the connected nodes. -/
def track (nodes : List (GlobalE2NodeId × SctpInfo)) :
    Event Rf → List (GlobalE2NodeId × SctpInfo)
  | .setup id info _ => (id, info) :: nodes.filter fun e => e.1 ≠ id
  | .shutdown info => nodes.filter fun e => e.2 ≠ info

/-- The nodes that are connected after a run, each with the address of its latest setup. -/
def connected (tr : List (Event Rf)) : List (GlobalE2NodeId × SctpInfo) := tr.foldl track []

@[simp] theorem connected_append (tr : List (Event Rf)) (a : Event Rf) :
    connected (tr ++ [a]) = track (connected tr) a := by
  simp [connected]

/-- The list holds every connected node once and no other, and has never left its block; the iApp
has the same nodes; the end point finds the address of the latest setup of a connected node and of
no other; and a shutdown of a connected association passes all assertions. -/
structure Consistent (tr : List (Event Rf)) (s : NodeRegistry Rf) : Prop where
  conn_nodup : s.connE2Nodes.Nodup
  conn_intact : s.connBlock.intact = true
  mem_conn : ∀ id, id ∈ s.connE2Nodes ↔ id ∈ (connected tr).map (·.1)
  mem_nodeToRf : ∀ id, id ∈ s.nodeToRf.entries.map (·.1) ↔ id ∈ s.connE2Nodes
  find_eq : ∀ id, s.findMapE2NodeSad id = ((connected tr).find? fun e => e.1 = id).map (·.2)
  shutdown : ∀ e ∈ connected tr, (s.handleShutdown e.2).isSome = true

def Event.arrayStep : Event Rf → ArrayStep
  | .setup .. => .push
  | .shutdown _ => .pop

/-- Every setup of a run is of a node that is not connected at that moment. -/
def FreshSetups (tr : List (Event Rf)) : Prop :=
  ∀ pre id info rf, pre ++ [.setup id info rf] <+: tr → id ∉ (connected pre).map (·.1)

/-! ### The invariant of a run with fresh setups -/

/-- All three registries hold the connected nodes. -/
structure RegistryInv (tr : List (Event Rf)) (s : NodeRegistry Rf) : Prop where
  sad : s.e2NodeSad.WellFormed cmpGlobalE2NodeId cmpSctpInfo
  rf : s.nodeToRf.WellFormed cmpGlobalE2NodeId
  perm_sad : s.e2NodeSad.left.entries.Perm (connected tr)
  perm_conn : s.connE2Nodes.Perm ((connected tr).map (·.1))
  perm_rf : (s.nodeToRf.entries.map (·.1)).Perm ((connected tr).map (·.1))
  ids_nodup : ((connected tr).map (·.1)).Nodup
  infos_nodup : ((connected tr).map (·.2)).Nodup

section Invariant

variable {tr : List (Event Rf)} {s t : NodeRegistry Rf} {id : GlobalE2NodeId} {info : SctpInfo}
  {rf : Rf}

theorem registryInv_init : RegistryInv [] (init : NodeRegistry Rf) :=
  ⟨BiMap.wellFormed_empty, AssocTree.wellFormed_empty, .nil, .nil, .nil, .nil, .nil⟩

/-- A node that is not registered at the iApp is inserted. -/
theorem addRegE2Node_of_not_mem {m : AssocTree GlobalE2NodeId Rf}
    (h : id ∉ m.entries.map (·.1)) :
    addRegE2Node m id rf = some (m.insert cmpGlobalE2NodeId id rf) := by
  have hnone : m.findIf (eqGlobalE2NodeId id) = none := by
    rw [AssocTree.findIf, List.find?_eq_none]
    intro e he heq
    rw [eqGlobalE2NodeId_iff] at heq
    exact h (heq ▸ List.mem_map_of_mem he)
  rw [addRegE2Node, hnone]
  split_ifs <;> rfl

theorem RegistryInv.setup (h : RegistryInv tr s) (hnew : id ∉ (connected tr).map (·.1))
    (hpeer : ∀ e ∈ s.e2NodeSad.left.entries, e.2 = info → e.1 = id)
    (hset : s.handleSetup id info rf = some t) : RegistryInv (tr ++ [.setup id info rf]) t := by
  have hreg : id ∉ s.nodeToRf.entries.map (·.1) := fun hmem => hnew (h.perm_rf.mem_iff.mp hmem)
  rw [handleSetup, addRegE2Node_of_not_mem hreg] at hset
  obtain rfl := Option.some.inj hset
  -- nothing is replaced in the specification either
  have hconn : connected (tr ++ [.setup id info rf]) = (id, info) :: connected tr := by
    rw [connected_append, track, List.filter_eq_self.mpr]
    intro e he
    have hne : e.1 ≠ id := fun heq => hnew (heq ▸ List.mem_map_of_mem he)
    simpa using hne
  have hinfo : info ∉ (connected tr).map (·.2) := by
    intro hmem
    obtain ⟨e, he, heq⟩ := List.mem_map.mp hmem
    have hid := hpeer e (h.perm_sad.mem_iff.mpr he) heq
    exact hnew (hid ▸ List.mem_map_of_mem he)
  constructor
  · exact h.sad.insert id info
  · exact h.rf.insert id rf
  · rw [hconn]
    exact (AssocTree.perm_insert h.sad.left id info).trans (h.perm_sad.cons _)
  · rw [hconn, List.map_cons]
    exact List.perm_append_comm.trans (h.perm_conn.cons id)
  · rw [hconn, List.map_cons]
    exact ((AssocTree.perm_insert h.rf id rf).map _).trans (h.perm_rf.cons id)
  · rw [hconn, List.map_cons, List.nodup_cons]
    exact ⟨hnew, h.ids_nodup⟩
  · rw [hconn, List.map_cons, List.nodup_cons]
    exact ⟨hinfo, h.infos_nodup⟩

/-- A shutdown takes the node of the association, and no other, from the connected nodes. -/
theorem RegistryInv.perm_shutdown (h : RegistryInv tr s) (hmem : (id, info) ∈ connected tr) :
    (connected tr).Perm ((id, info) :: connected (tr ++ [.shutdown info])) := by
  obtain ⟨pre, post, hsplit⟩ := List.append_of_mem hmem
  have hnodup := h.infos_nodup
  rw [hsplit] at hnodup
  rw [connected_append, track, hsplit, filter_ne_of_split hnodup]
  exact List.perm_middle

/-- The end point removes the pair of the association. -/
theorem RegistryInv.rmMapSad (h : RegistryInv tr s) (hmem : (id, info) ∈ connected tr) :
    ∃ m, rmMapSadE2Node s.e2NodeSad info = some (id, m) ∧
      m.WellFormed cmpGlobalE2NodeId cmpSctpInfo ∧
      m.left.entries.Perm (connected (tr ++ [.shutdown info])) := by
  have hleft := h.perm_sad.mem_iff.mpr hmem
  -- neither the id nor the address occurs in another pair
  have hid : ∀ e ∈ s.e2NodeSad.left.entries, cmpGlobalE2NodeId id e.1 = .eq → e = (id, info) := by
    intro e he hcmp
    exact List.inj_on_of_nodup_map h.ids_nodup (h.perm_sad.mem_iff.mp he) hmem
      (cmpGlobalE2NodeId_eq_iff.mp hcmp).symm
  have hinfo : ∀ e ∈ s.e2NodeSad.left.entries, cmpSctpInfo info e.2 = .eq → e = (id, info) := by
    intro e he hcmp
    exact List.inj_on_of_nodup_map h.infos_nodup (h.perm_sad.mem_iff.mp he) hmem
      (cmpSctpInfo_eq_iff.mp hcmp).symm
  obtain ⟨m, hextract, hwf, pre, post, hent, hent'⟩ :=
    h.sad.extractRight_of_unique hleft hid hinfo
  refine ⟨m, hextract, hwf, ?_⟩
  have hperm := h.perm_sad.trans (h.perm_shutdown hmem)
  rw [hent] at hperm
  rw [hent']
  exact (List.perm_middle.symm.trans hperm).cons_inv

/-- The list has the node once, so the loop of the handler erases it. -/
theorem RegistryInv.eraseConn (h : RegistryInv tr s) (hmem : (id, info) ∈ connected tr) :
    (∃ n, s.connE2Nodes.find? (fun n => eqGlobalE2NodeId n id) = some n) ∧
      (s.connE2Nodes.eraseP fun n => eqGlobalE2NodeId n id).Perm
        ((connected (tr ++ [.shutdown info])).map (·.1)) := by
  constructor
  · rw [← Option.isSome_iff_exists, List.find?_isSome]
    exact ⟨id, h.perm_conn.mem_iff.mpr (List.mem_map_of_mem hmem), eqGlobalE2NodeId_iff.mpr rfl⟩
  · have herase : (s.connE2Nodes.eraseP fun n => eqGlobalE2NodeId n id) =
        s.connE2Nodes.erase id := by
      rw [List.erase_eq_eraseP]
      congr 1
      funext n
      rw [Bool.eq_iff_iff, eqGlobalE2NodeId_iff, beq_iff_eq, eq_comm]
    have hperm := (h.perm_conn.trans ((h.perm_shutdown hmem).map _)).erase id
    rw [herase]
    simpa using hperm

/-- The iApp removes the node. -/
theorem RegistryInv.rmReg (h : RegistryInv tr s) (hmem : (id, info) ∈ connected tr) :
    ∃ r, rmRegE2Node s.nodeToRf id = some r ∧ r.WellFormed cmpGlobalE2NodeId ∧
      (r.entries.map (·.1)).Perm ((connected (tr ++ [.shutdown info])).map (·.1)) := by
  have hreg : (s.nodeToRf.findIf (eqGlobalE2NodeId id)).isSome = true := by
    obtain ⟨e, he, heq⟩ := List.mem_map.mp (h.perm_rf.mem_iff.mpr (List.mem_map_of_mem hmem))
    rw [AssocTree.findIf, List.find?_isSome]
    exact ⟨e, he, eqGlobalE2NodeId_iff.mpr heq.symm⟩
  obtain ⟨e, he⟩ := Option.isSome_iff_exists.mp hreg
  have heid : id = e.1 := eqGlobalE2NodeId_iff.mp (h.rf.findIf_least he).2.1
  obtain ⟨r, hfree, hwf, pre, post, hent, hent'⟩ := AssocTree.freeIf_of_findIf h.rf he
  refine ⟨r, hfree, hwf, ?_⟩
  have hperm := h.perm_rf.trans ((h.perm_shutdown hmem).map _)
  rw [hent, List.map_append, List.map_cons, ← heid] at hperm
  rw [hent', List.map_append]
  exact (List.perm_middle.symm.trans hperm).cons_inv

/-- The shutdown of a connected association removes its node from all three registries. -/
theorem RegistryInv.shutdown_connected (h : RegistryInv tr s) (hmem : (id, info) ∈ connected tr) :
    ∃ t, s.handleShutdown info = some t ∧ RegistryInv (tr ++ [.shutdown info]) t := by
  obtain ⟨m, hmap, hmap_wf, hmap_perm⟩ := h.rmMapSad hmem
  obtain ⟨⟨n, hfind⟩, hconn_perm⟩ := h.eraseConn hmem
  obtain ⟨r, hreg, hreg_wf, hreg_perm⟩ := h.rmReg hmem
  have hsub : (connected (tr ++ [.shutdown info])).Sublist (connected tr) := by
    rw [connected_append]
    exact List.filter_sublist
  refine ⟨⟨m, s.connE2Nodes.eraseP fun n => eqGlobalE2NodeId n id,
    s.connBlock.step e2NodeSize .pop, r⟩, ?_, ?_⟩
  · simp only [handleShutdown, hmap, hfind, hreg]
  · exact ⟨hmap_wf, hreg_wf, hmap_perm, hconn_perm, hreg_perm, h.ids_nodup.sublist (hsub.map _),
      h.infos_nodup.sublist (hsub.map _)⟩

theorem RegistryInv.shutdown (h : RegistryInv tr s) (hshut : s.handleShutdown info = some t) :
    RegistryInv (tr ++ [.shutdown info]) t := by
  by_cases hmem : ∃ id, (id, info) ∈ connected tr
  · obtain ⟨id, hmem⟩ := hmem
    obtain ⟨t', hshut', hinv⟩ := h.shutdown_connected hmem
    obtain rfl := Option.some.inj (hshut'.symm.trans hshut)
    exact hinv
  · -- the peer is not in the right tree, so the handler would have failed
    have hnone : s.e2NodeSad.right.lookup cmpSctpInfo info = none := by
      by_contra hsome
      obtain ⟨⟨info', id⟩, hlookup⟩ := Option.ne_none_iff_exists'.mp hsome
      obtain ⟨hright, hcmp⟩ := AssocTree.lookup_mem hlookup
      obtain rfl := cmpSctpInfo_eq_iff.mp hcmp
      exact hmem ⟨id, h.perm_sad.mem_iff.mp (h.sad.mem_iff.mp hright)⟩
    rw [handleShutdown, rmMapSadE2Node, BiMap.extractRight,
      AssocTree.extract_of_lookup_none hnone] at hshut
    cases hshut

/-- Along a run with fresh setups, all three registries hold the connected nodes. -/
theorem RegistryRun.registryInv (h : RegistryRun tr s) (hfresh : FreshSetups tr) :
    RegistryInv tr s := by
  refine h.traceInvariant (I := fun tr s => FreshSetups tr → RegistryInv tr s) ?_ ?_ hfresh
  · intro s hs _
    subst hs
    exact registryInv_init
  · intro tr a s t _ hinv hstep hfresh
    have h := hinv fun pre id info rf hpre =>
      hfresh pre id info rf (hpre.trans (List.prefix_append _ _))
    cases hstep with
    | setup hpeer hset => exact h.setup (hfresh _ _ _ _ (List.prefix_refl _)) hpeer hset
    | shutdown hshut => exact h.shutdown hshut

/-- The block depends on the numbers of setups and shutdowns only. -/
theorem RegistryRun.connBlock_eq (h : RegistryRun tr s) :
    s.connBlock = extentAfter e2NodeSize (tr.map Event.arrayStep) := by
  refine h.traceInvariant
    (I := fun tr s => s.connBlock = extentAfter e2NodeSize (tr.map Event.arrayStep)) ?_ ?_
  · intro s hs
    subst hs
    rfl
  · intro tr a s t _ hblock hstep
    have hnext : t.connBlock = s.connBlock.step e2NodeSize a.arrayStep := by
      cases hstep with
      | setup _ hset =>
        rw [handleSetup] at hset
        split at hset
        · cases hset
        · obtain rfl := Option.some.inj hset
          rfl
      | shutdown hshut =>
        simp only [handleShutdown] at hshut
        split at hshut
        · cases hshut
        · split at hshut
          · cases hshut
          · split at hshut
            · cases hshut
            · obtain rfl := Option.some.inj hshut
              rfl
    rw [hnext, hblock, List.map_append, extentAfter, extentAfter, List.foldl_append]
    rfl

theorem RegistryRun.intact_iff (h : RegistryRun tr s) :
    s.connBlock.intact = true ↔ KeepsBlock e2NodeSize (sizes (tr.map Event.arrayStep)) := by
  rw [h.connBlock_eq]
  exact intact_extentAfter_iff (largeElements_of_le (by decide)) _

/-! ### When the registries agree -/

/-- A search by key in a list with distinct keys finds the value of the key. -/
theorem find?_fst_of_mem {l : List (GlobalE2NodeId × SctpInfo)} {p : GlobalE2NodeId → Bool}
    (hp : ∀ n, p n = true ↔ n = id) (h : (l.map (·.1)).Nodup) (hmem : (id, info) ∈ l) :
    (l.find? fun e => p e.1).map (·.2) = some info := by
  have hsome : (l.find? fun e => p e.1).isSome = true := by
    rw [List.find?_isSome]
    exact ⟨(id, info), hmem, (hp id).mpr rfl⟩
  obtain ⟨e, he⟩ := Option.isSome_iff_exists.mp hsome
  have hpe := List.find?_some he
  have hid : e.1 = id := (hp _).mp hpe
  have heq : e = (id, info) := List.inj_on_of_nodup_map h (List.mem_of_find?_eq_some he) hmem hid
  rw [he, heq]
  rfl

/-- A search by key finds nothing where the key does not occur. -/
theorem find?_fst_of_not_mem {l : List (GlobalE2NodeId × SctpInfo)} {p : GlobalE2NodeId → Bool}
    (hp : ∀ n, p n = true ↔ n = id) (h : id ∉ l.map (·.1)) :
    (l.find? fun e => p e.1).map (·.2) = none := by
  rw [Option.map_eq_none_iff, List.find?_eq_none]
  intro e he hpe
  exact h ((hp _).mp hpe ▸ List.mem_map_of_mem he)

theorem RegistryInv.find_eq (h : RegistryInv tr s) (id : GlobalE2NodeId) :
    s.findMapE2NodeSad id = ((connected tr).find? fun e => e.1 = id).map (·.2) := by
  have heq : ∀ n, eqGlobalE2NodeId id n = true ↔ n = id := by
    intro n
    rw [eqGlobalE2NodeId_iff, eq_comm]
  have hdec : ∀ n : GlobalE2NodeId, decide (n = id) = true ↔ n = id := fun n => decide_eq_true_iff
  by_cases hmem : id ∈ (connected tr).map (·.1)
  · obtain ⟨⟨id', info⟩, hpair, hid⟩ := List.mem_map.mp hmem
    subst hid
    have hnodup := (h.perm_sad.map _).nodup_iff.mpr h.ids_nodup
    rw [find?_fst_of_mem hdec h.ids_nodup hpair]
    exact find?_fst_of_mem heq hnodup (h.perm_sad.mem_iff.mpr hpair)
  · have hleft : id ∉ s.e2NodeSad.left.entries.map (·.1) := by
      rw [(h.perm_sad.map _).mem_iff]
      exact hmem
    rw [find?_fst_of_not_mem hdec hmem]
    exact find?_fst_of_not_mem heq hleft

theorem RegistryInv.consistent (h : RegistryInv tr s) (hintact : s.connBlock.intact = true) :
    Consistent tr s := by
  constructor
  · exact h.perm_conn.nodup_iff.mpr h.ids_nodup
  · exact hintact
  · intro id
    exact h.perm_conn.mem_iff
  · intro id
    rw [h.perm_rf.mem_iff, h.perm_conn.mem_iff]
  · exact h.find_eq
  · intro e he
    obtain ⟨t, hshut, -⟩ := h.shutdown_connected he
    rw [hshut]
    rfl

/-- A setup of a node that is in the list puts it there twice. -/
theorem RegistryStep.not_nodup (hstep : RegistryStep (.setup id info rf) s t)
    (hmem : id ∈ s.connE2Nodes) : ¬ t.connE2Nodes.Nodup := by
  cases hstep with
  | setup _ hset =>
    rw [handleSetup] at hset
    split at hset
    · cases hset
    · obtain rfl := Option.some.inj hset
      intro hnodup
      exact (List.nodup_append.mp hnodup).2.2 id hmem id (List.mem_singleton_self id) rfl

end Invariant

/-- The registries agree in all states along a run exactly when every setup is of a node that is not
connected at that moment, and the numbers of connected nodes are such that the list keeps to its
block. -/
theorem consistent_iff (tr : List (Event Rf)) (s : NodeRegistry Rf) (hrun : RegistryRun tr s) :
    (∀ pre t, pre <+: tr → RegistryRun pre t → Consistent pre t) ↔
      FreshSetups tr ∧ KeepsBlock e2NodeSize (sizes (tr.map Event.arrayStep)) := by
  constructor
  · intro hall
    refine ⟨?_, hrun.intact_iff.mp (hall tr s (List.prefix_refl _) hrun).conn_intact⟩
    intro pre id info rf hpre hmem
    obtain ⟨t, ht⟩ := hrun.of_prefix hpre
    obtain ⟨u, hu, hstep⟩ := ht.last
    have hbefore := hall pre u ((List.prefix_append _ _).trans hpre) hu
    exact hstep.not_nodup ((hbefore.mem_conn id).mpr hmem) (hall _ t hpre ht).conn_nodup
  · rintro ⟨hfresh, hblock⟩ pre t hpre ht
    apply RegistryInv.consistent
    · apply RegistryRun.registryInv ht
      intro pre' id info rf hpre'
      exact hfresh pre' id info rf (hpre'.trans hpre)
    · obtain ⟨rest, rfl⟩ := hpre
      have hintact := hrun.intact_iff.mpr hblock
      rw [hrun.connBlock_eq, List.map_append] at hintact
      rw [ht.connBlock_eq]
      exact intact_of_append _ hintact

/-- A base station. -/
def sampleNode : GlobalE2NodeId := ⟨.gNB, ⟨1, 1, 2⟩, 0xe00, 4, none, .inl ⟨.inr rfl, rfl⟩⟩

/-- Its peer address. -/
def samplePeer : SctpInfo := ⟨36422, 0x7f000001, 2⟩

/-- The registries after the first setup request. -/
def oneSetup : NodeRegistry Unit :=
  ⟨addMapE2NodeSad .empty sampleNode samplePeer, [sampleNode],
    (Extent.init e2NodeSize).step e2NodeSize .push,
    AssocTree.insert cmpGlobalE2NodeId .empty sampleNode ()⟩

theorem registryRun_oneSetup : RegistryRun [.setup sampleNode samplePeer ()] oneSetup :=
  .first rfl (.setup (fun _ he => (List.not_mem_nil he).elim) rfl)

theorem consistent_oneSetup : Consistent [.setup sampleNode samplePeer ()] oneSetup := by
  refine (consistent_iff _ _ registryRun_oneSetup).mpr ⟨?_, ?_⟩ _ _ (List.prefix_refl _)
    registryRun_oneSetup
  swap
  · exact registryRun_oneSetup.intact_iff.mp (by decide)
  intro pre id info rf hpre
  -- the setup is the first event
  have hnil : pre = [] := by
    have hlen := hpre.length_le
    rw [List.length_append, List.length_singleton, List.length_singleton] at hlen
    exact List.length_eq_zero_iff.mp (by omega)
  rw [hnil]
  exact List.not_mem_nil

/-- A retransmission of the setup request puts the node into the list twice. -/
theorem not_consistent_retransmission :
    ∃ s, RegistryRun [.setup sampleNode samplePeer (), .setup sampleNode samplePeer ()] s ∧
      s.connE2Nodes = [sampleNode, sampleNode] ∧
      ¬ Consistent [.setup sampleNode samplePeer (), .setup sampleNode samplePeer ()] s := by
  have hpeer : ∀ e ∈ oneSetup.e2NodeSad.left.entries, e.2 = samplePeer → e.1 = sampleNode := by
    intro e he _
    rw [List.mem_singleton.mp he]
  have hstep : RegistryStep (.setup sampleNode samplePeer ()) oneSetup _ := .setup hpeer rfl
  refine ⟨_, registryRun_oneSetup.step hstep, rfl, ?_⟩
  intro hcons
  exact hstep.not_nodup (List.mem_singleton_self _) hcons.conn_nodup

end NodeRegistry

end LlmHric.Flexric
