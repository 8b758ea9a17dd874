import LlmHric.Flexric.Bimap
import LlmHric.Flexric.Ids
import LlmHric.Library.Run
import Mathlib.Data.List.Nodup

/-! The iApp of the near-RT RIC forwards the subscription and control requests of its xApps to the
E2 nodes. Every forwarded request gets a new RIC request id, and `map_ric_id` maps it to the xApp
and the id the xApp had chosen. Answers of the E2 nodes are handled by a pool of threads: a thread
looks the xApp up, sends it the answer and, when the answer ends the procedure, removes the pair in
a second access to the map. -/

namespace LlmHric.Flexric

/-- `ric_request_type_e` -/
inductive RicRequestType
  | subscription
  | control
  deriving DecidableEq

/-- `e2_node_ric_id_t`: a forwarded request. -/
structure E2NodeRicId (Node : Type) where
  e2NodeId : Node
  ricId : RicGenId
  ricReqType : RicRequestType
  deriving DecidableEq

/-- `xapp_ric_id_t`: a request as its xApp knows it. -/
structure XappRicId where
  ricId : RicGenId
  xappId : ℕ
  deriving DecidableEq

/-- `cmp_e2_node_ric_req_wrapper`: greater request ids come first. -/
def cmpE2NodeRicReq {Node : Type} (a b : E2NodeRicId Node) : Ordering :=
  compare b.ricId.ricReqId a.ricId.ricReqId

instance {Node : Type} : Std.TransCmp (@cmpE2NodeRicReq Node) :=
  transCmp_on (fun a b : ℕ => compare b a) fun n : E2NodeRicId Node => n.ricId.ricReqId

/-- `cmp_xapp_ric_gen_id` -/
def cmpXappRicGenId : XappRicId → XappRicId → Ordering :=
  compareLex (compareOn (·.xappId)) fun a b => cmpRicGenId a.ricId b.ricId

instance : Std.TransCmp cmpXappRicGenId := by
  unfold cmpXappRicGenId
  have := transCmp_on cmpRicGenId XappRicId.ricId
  infer_instance

/-- `eq_xapp_id` -/
def eqXappId (m₀ m₁ : ℕ) : Bool := m₀ == m₁

/-- `eq_xapp_ric_gen_id`; the first comparison is of the xApp id with itself. -/
def eqXappRicGenId (m₀ m₁ : XappRicId) : Bool :=
  eqXappId m₀.xappId m₀.xappId && eqRicGenId m₀.ricId m₁.ricId

/-- `eq_e2_node_ric_req` -/
def eqE2NodeRicReq {Node : Type} (a b : E2NodeRicId Node) : Bool :=
  a.ricId.ricReqId == b.ricId.ricReqId

@[simp] theorem cmpE2NodeRicReq_eq_iff {Node : Type} {a b : E2NodeRicId Node} :
    cmpE2NodeRicReq a b = .eq ↔ a.ricId.ricReqId = b.ricId.ricReqId := by
  rw [cmpE2NodeRicReq, Nat.compare_eq_eq, eq_comm]

@[simp] theorem cmpXappRicGenId_eq_iff {a b : XappRicId} : cmpXappRicGenId a b = .eq ↔ a = b := by
  rcases a with ⟨ricId, xappId⟩
  rcases b with ⟨ricId', xappId'⟩
  simp only [cmpXappRicGenId, compareLex, compareOn, Ordering.then_eq_eq, Nat.compare_eq_eq,
    cmpRicGenId_eq_iff, XappRicId.mk.injEq, and_comm]

theorem xappId_le_of_cmp {a b : XappRicId} (h : (cmpXappRicGenId a b).isLE = true) :
    a.xappId ≤ b.xappId := by
  rw [cmpXappRicGenId, compareLex, compareOn, Ordering.isLE_then_iff_or, Nat.compare_eq_lt,
    Nat.compare_eq_eq] at h
  rcases h with h | h
  · exact Nat.le_of_lt h
  · exact Nat.le_of_eq h.1

@[simp] theorem eqXappRicGenId_iff {a b : XappRicId} :
    eqXappRicGenId a b = true ↔ a.ricId = b.ricId := by
  simp [eqXappRicGenId, eqXappId]

@[simp] theorem eqE2NodeRicReq_iff {Node : Type} {a b : E2NodeRicId Node} :
    eqE2NodeRicReq a b = true ↔ a.ricId.ricReqId = b.ricId.ricReqId := by
  simp [eqE2NodeRicReq]

/-- `map_ric_id_t` -/
abbrev MapRicId (Node : Type) := BiMap (E2NodeRicId Node) XappRicId

namespace MapRicId

variable {Node : Type}

/-- `add_map_ric_id`; `none` when the request id is already in the map. -/
def add (m : MapRicId Node) (node : E2NodeRicId Node) (x : XappRicId) : Option (MapRicId Node) :=
  match m.left.findIf (eqE2NodeRicReq node) with
  | some _ => none
  | none => some (BiMap.insert cmpE2NodeRicReq cmpXappRicGenId m node x)

/-- `rm_map_ric_id` -/
def rm (m : MapRicId Node) (x : XappRicId) : Option (MapRicId Node) :=
  (BiMap.extractRight cmpE2NodeRicReq cmpXappRicGenId m x).map (·.2)

/-- `find_xapp_map_ric_id`: the xApp of a request id, if there is one. The id is asserted to be
positive. -/
def findXapp (m : MapRicId Node) (ricReqId : ℕ) : Option (Option XappRicId) :=
  if ricReqId > 0 then
    some ((m.left.findIf fun n => ricReqId == n.ricId.ricReqId).map (·.2))
  else none

/-- `find_ric_req_map_ric_id` -/
def findRicReq (m : MapRicId Node) (x : XappRicId) : Option (E2NodeRicId Node) :=
  (m.right.findIf (eqXappRicGenId x)).map (·.2)

/-- The map is well formed for the comparisons it is initialised with. -/
abbrev WellFormed (m : MapRicId Node) : Prop := BiMap.WellFormed cmpE2NodeRicReq cmpXappRicGenId m

end MapRicId

/-! ### The handlers -/

/-- The part of the near-RT RIC and its iApp that takes part in request forwarding. A result `none`
of a handler is an assertion that fails. -/
structure NearRic (Node : Type) where
  mapRicId : MapRicId Node
  /-- The E2 nodes that are registered at the iApp. -/
  e2Nodes : List Node
  /-- The id of the next xApp. -/
  xappId : ℕ
  /-- The atomic counter of the RIC request ids. -/
  reqId : ℕ
  /-- The pairs that threads are about to remove, after the answer has been sent. -/
  removing : List XappRicId

/-- The answers of E2 nodes to a RIC request. -/
inductive Answer
  | subscriptionResponse
  | subscriptionDeleteResponse
  | controlAcknowledge
  | controlFailure
  | indication
  deriving DecidableEq

namespace NearRic

variable {Node : Type}

/-- `init_near_ric` and `init_e42_iapp` -/
def init : NearRic Node := ⟨.empty, [], 7, 1021, []⟩

/-- The `uint16_t` that the next request gets. A wrap of the `int` counter does not change it. -/
def newRicId (s : NearRic Node) : ℕ := s.reqId % 65536

/-- `e2ap_handle_e42_setup_request_iapp`: a new xApp gets the next id. -/
def handleSetup (s : NearRic Node) : NearRic Node := { s with xappId := s.xappId + 1 }

section Requests

variable [BEq Node]

/-- `valid_xapp_id` and `valid_global_e2_node` -/
def validRequest (s : NearRic Node) (node : Node) (x : XappRicId) : Bool :=
  x.xappId < 65536 && x.xappId ≤ s.xappId && s.e2Nodes.any fun n => n == node

def forwarded (s : NearRic Node) (type : RicRequestType) (node : Node) (x : XappRicId) :
    E2NodeRicId Node :=
  ⟨node, { x.ricId with ricReqId := s.newRicId }, type⟩

/-- The common part of the two request handlers: the new id and the state after the call. -/
def handleRequest (type : RicRequestType) (s : NearRic Node) (node : Node) (x : XappRicId) :
    Option (ℕ × NearRic Node) :=
  if s.validRequest node x then
    (s.mapRicId.add (s.forwarded type node x) x).map fun m =>
      (s.newRicId, { s with mapRicId := m, reqId := s.reqId + 1 })
  else none

/-- `e2ap_handle_e42_ric_subscription_request_iapp` with `fwd_ric_subscription_request` -/
def handleSubscriptionRequest (s : NearRic Node) (node : Node) (x : XappRicId) :
    Option (ℕ × NearRic Node) :=
  handleRequest .subscription s node x

/-- `e2ap_handle_e42_ric_control_request_iapp` with `fwd_ric_control_request` -/
def handleControlRequest (s : NearRic Node) (node : Node) (x : XappRicId) :
    Option (ℕ × NearRic Node) :=
  handleRequest .control s node x

end Requests

/-- `e2ap_handle_e42_ric_subscription_delete_request_iapp`: the E2 node and the id that the deletion
is forwarded with. -/
def handleDelete (s : NearRic Node) (x : XappRicId) : Option (Node × RicGenId) :=
  match s.mapRicId.findRicReq x with
  | none => none
  | some n =>
    if n.ricReqType = .subscription then
      some (n.e2NodeId, { x.ricId with ricReqId := n.ricId.ricReqId })
    else none

/-- The common part of the answer handlers: the xApp is looked up and sent the answer. `required`
tells whether an unknown id fails an assertion, `ends` whether the pair is removed afterwards, and
`moved` whether the message is the node's own with the request id replaced. -/
def forwardAnswer (required ends moved : Bool) (s : NearRic Node) (id : RicGenId) :
    Option (Option XappRicId × NearRic Node) :=
  match s.mapRicId.findXapp (id.ricReqId % 65536) with
  | none => none
  | some none => if required then none else some (none, s)
  | some (some x) =>
    if id.ranFuncId = x.ricId.ranFuncId ∧ id.ricInstId = x.ricId.ricInstId then
      some (some ⟨if moved then { id with ricReqId := x.ricId.ricReqId } else x.ricId, x.xappId⟩,
        if ends then { s with removing := x :: s.removing } else s)
    else none

/-- `e2ap_handle_subscription_response_iapp` -/
def handleSubscriptionResponse := @forwardAnswer Node true false true

/-- `e2ap_handle_subscription_delete_response_iapp` -/
def handleSubscriptionDeleteResponse := @forwardAnswer Node false true false

/-- `e2ap_handle_e42_ric_control_ack_iapp` -/
def handleControlAcknowledge := @forwardAnswer Node true true false

/-- `e2ap_handle_e42_ric_control_failure_iapp` -/
def handleControlFailure := @forwardAnswer Node true true false

/-- `e2ap_handle_ric_indication_iapp` -/
def handleIndication := @forwardAnswer Node false false true

/-- `e2ap_msg_handle_iapp` on the answers of the E2 nodes: the xApp and the id of the message sent
to it, and the state after the call. -/
def handleAnswer (s : NearRic Node) (id : RicGenId) :
    Answer → Option (Option XappRicId × NearRic Node)
  | .subscriptionResponse => s.handleSubscriptionResponse id
  | .subscriptionDeleteResponse => s.handleSubscriptionDeleteResponse id
  | .controlAcknowledge => s.handleControlAcknowledge id
  | .controlFailure => s.handleControlFailure id
  | .indication => s.handleIndication id

/-- What happens at the near-RT RIC. -/
inductive Event (Node : Type)
  /-- An xApp connects. -/
  | setup
  /-- The set of registered E2 nodes changes. -/
  | nodes (e2Nodes : List Node)
  /-- A request of an xApp, with the RIC request id it gets. -/
  | request (type : RicRequestType) (node : Node) (x : XappRicId) (newId : ℕ)
  /-- A subscription delete request of an xApp. -/
  | delete (x : XappRicId)
  /-- An answer of an E2 node is forwarded. -/
  | answer (kind : Answer) (id : RicGenId)
  /-- A thread that has forwarded the last answer removes the pair. -/
  | remove (x : XappRicId)

/-- One event. An xApp numbers its requests itself and does not use the id of an open one. -/
inductive RicStep [BEq Node] : Event Node → NearRic Node → NearRic Node → Prop
  | setup {s : NearRic Node} : RicStep .setup s s.handleSetup
  | nodes {s : NearRic Node} {e2Nodes : List Node} :
      RicStep (.nodes e2Nodes) s { s with e2Nodes := e2Nodes }
  | request {s t : NearRic Node} {type : RicRequestType} {node : Node} {x : XappRicId} {newId : ℕ} :
      (∀ e ∈ s.mapRicId.left.entries, e.2 ≠ x) →
      handleRequest type s node x = some (newId, t) → RicStep (.request type node x newId) s t
  | delete {s : NearRic Node} {x : XappRicId} {sent : Node × RicGenId} :
      s.handleDelete x = some sent → RicStep (.delete x) s s
  | answer {s t : NearRic Node} {kind : Answer} {id : RicGenId} {sent : Option XappRicId} :
      s.handleAnswer id kind = some (sent, t) → RicStep (.answer kind id) s t
  | remove {s : NearRic Node} {x : XappRicId} {m : MapRicId Node} :
      x ∈ s.removing → s.mapRicId.rm x = some m →
      RicStep (.remove x) s { s with mapRicId := m, removing := s.removing.erase x }

abbrev RicRun [BEq Node] (tr : List (Event Node)) (s : NearRic Node) : Prop :=
  Run.Reach RicStep (· = init) tr s

def track (opened : List (E2NodeRicId Node × XappRicId)) :
    Event Node → List (E2NodeRicId Node × XappRicId)
  | .request type node x newId => (⟨node, { x.ricId with ricReqId := newId }, type⟩, x) :: opened
  | .remove x => opened.filter fun e => e.2 ≠ x
  | .setup | .nodes _ | .delete _ | .answer _ _ => opened

/-- The requests of a run whose pairs have not been removed, each with what it was forwarded as. -/
def openRequests (tr : List (Event Node)) : List (E2NodeRicId Node × XappRicId) :=
  tr.foldl track []

@[simp] theorem openRequests_append (tr : List (Event Node)) (a : Event Node) :
    openRequests (tr ++ [a]) = track (openRequests tr) a := by
  simp [openRequests]

def Event.isRequest : Event Node → Bool
  | .request _ _ _ _ => true
  | .setup | .nodes _ | .delete _ | .answer _ _ | .remove _ => false

/-- The number of requests in a run. -/
def requestCount (tr : List (Event Node)) : ℕ := tr.countP Event.isRequest

/-! ### The invariant of the map -/

/-- The invariant of the map: both keys are unique, and a forwarded id differs from the xApp's only
in the request id. -/
structure MapInv (m : MapRicId Node) : Prop where
  wellFormed : m.WellFormed
  ids_nodup : (m.left.entries.map (·.1.ricId.ricReqId)).Nodup
  keys_nodup : (m.left.entries.map (·.2)).Nodup
  renumbered : ∀ e ∈ m.left.entries,
    e.1.ricId = { e.2.ricId with ricReqId := e.1.ricId.ricReqId } ∧ e.1.ricId.ricReqId < 65536

section Map

variable {m m' : MapRicId Node} {n : E2NodeRicId Node} {x : XappRicId}

theorem add_eq_some_iff :
    m.add n x = some m' ↔ (∀ e ∈ m.left.entries, e.1.ricId.ricReqId ≠ n.ricId.ricReqId) ∧
      m' = BiMap.insert cmpE2NodeRicReq cmpXappRicGenId m n x := by
  have hfind : m.left.findIf (eqE2NodeRicReq n) = none ↔
      ∀ e ∈ m.left.entries, e.1.ricId.ricReqId ≠ n.ricId.ricReqId := by
    rw [AssocTree.findIf, List.find?_eq_none]
    refine forall₂_congr fun e _ => ?_
    rw [eqE2NodeRicReq_iff, eq_comm]
  rw [← hfind, MapRicId.add]
  split
  · simp [*]
  · simp [*, eq_comm (a := m')]

theorem MapInv.id_unique (h : MapInv m) {a b : E2NodeRicId Node × XappRicId}
    (ha : a ∈ m.left.entries) (hb : b ∈ m.left.entries)
    (hab : a.1.ricId.ricReqId = b.1.ricId.ricReqId) : a = b :=
  List.inj_on_of_nodup_map h.ids_nodup ha hb hab

theorem MapInv.key_unique (h : MapInv m) {a b : E2NodeRicId Node × XappRicId}
    (ha : a ∈ m.left.entries) (hb : b ∈ m.left.entries) (hab : a.2 = b.2) : a = b :=
  List.inj_on_of_nodup_map h.keys_nodup ha hb hab

theorem mapInv_empty : MapInv (BiMap.empty : MapRicId Node) :=
  ⟨BiMap.wellFormed_empty, .nil, .nil, fun _ he => (List.not_mem_nil he).elim⟩

theorem perm_insert_map (h : m.WellFormed) :
    (BiMap.insert cmpE2NodeRicReq cmpXappRicGenId m n x).left.entries.Perm
      ((n, x) :: m.left.entries) :=
  AssocTree.perm_insert h.left n x

theorem MapInv.insert (h : MapInv m)
    (hid : ∀ e ∈ m.left.entries, e.1.ricId.ricReqId ≠ n.ricId.ricReqId)
    (hkey : ∀ e ∈ m.left.entries, e.2 ≠ x)
    (hn : n.ricId = { x.ricId with ricReqId := n.ricId.ricReqId } ∧ n.ricId.ricReqId < 65536) :
    MapInv (BiMap.insert cmpE2NodeRicReq cmpXappRicGenId m n x) := by
  have hperm := perm_insert_map (n := n) (x := x) h.wellFormed
  refine ⟨h.wellFormed.insert n x, ?_, ?_, ?_⟩
  · rw [(hperm.map _).nodup_iff, List.map_cons, List.nodup_cons, List.mem_map]
    exact ⟨fun ⟨e, he, heq⟩ => hid e he heq, h.ids_nodup⟩
  · rw [(hperm.map _).nodup_iff, List.map_cons, List.nodup_cons, List.mem_map]
    exact ⟨fun ⟨e, he, heq⟩ => hkey e he heq, h.keys_nodup⟩
  · intro e he
    rcases List.mem_cons.mp (hperm.mem_iff.mp he) with rfl | he
    · exact hn
    · exact h.renumbered e he

/-- A stored pair can be removed. -/
theorem MapInv.rm_stored (h : MapInv m) (hmem : (n, x) ∈ m.left.entries) :
    ∃ m', m.rm x = some m' ∧ m'.WellFormed ∧
      m'.left.entries = m.left.entries.filter fun e => e.2 ≠ x := by
  obtain ⟨m', hextract, hwf, pre, post, hent, hent'⟩ :=
    h.wellFormed.extractRight_of_unique hmem
      (fun e he hcmp => h.id_unique he hmem (cmpE2NodeRicReq_eq_iff.mp hcmp).symm)
      (fun e he hcmp => h.key_unique he hmem (cmpXappRicGenId_eq_iff.mp hcmp).symm)
  refine ⟨m', by rw [MapRicId.rm, hextract, Option.map_some], hwf, ?_⟩
  have hnodup := h.keys_nodup
  rw [hent] at hnodup
  rw [hent', hent]
  exact (filter_ne_of_split (f := fun e : E2NodeRicId Node × XappRicId => e.2) hnodup).symm

/-- A removal takes out exactly the pair of the request. -/
theorem MapInv.rm (h : MapInv m) (hrm : m.rm x = some m') :
    MapInv m' ∧ m'.left.entries = m.left.entries.filter fun e => e.2 ≠ x := by
  by_cases hstored : ∃ n, (n, x) ∈ m.left.entries
  · obtain ⟨n, hmem⟩ := hstored
    obtain ⟨m'', hrm', hwf, hent⟩ := h.rm_stored hmem
    obtain rfl := Option.some.inj (hrm'.symm.trans hrm)
    have hsub : m''.left.entries.Sublist m.left.entries := hent ▸ List.filter_sublist
    refine ⟨⟨hwf, ?_, ?_, ?_⟩, hent⟩
    · exact h.ids_nodup.sublist (hsub.map _)
    · exact h.keys_nodup.sublist (hsub.map _)
    · intro e he
      exact h.renumbered e (hsub.subset he)
  · -- the search of the right tree finds nothing, so the removal would have failed
    have hnone : m.right.lookup cmpXappRicGenId x = none := by
      by_contra hsome
      obtain ⟨⟨x', n⟩, hlookup⟩ := Option.ne_none_iff_exists'.mp hsome
      obtain ⟨hmem, hcmp⟩ := AssocTree.lookup_mem hlookup
      obtain rfl := cmpXappRicGenId_eq_iff.mp hcmp
      exact hstored ⟨n, h.wellFormed.mem_iff.mp hmem⟩
    rw [MapRicId.rm, BiMap.extractRight, AssocTree.extract_of_lookup_none hnone] at hrm
    cases hrm

theorem findXapp_eq_some {ricReqId : ℕ} (h : m.findXapp ricReqId = some (some x)) :
    ∃ n, (n, x) ∈ m.left.entries ∧ n.ricId.ricReqId = ricReqId := by
  rw [MapRicId.findXapp] at h
  split_ifs at h
  obtain ⟨⟨n, x'⟩, hfind, rfl⟩ := Option.map_eq_some_iff.mp (Option.some.inj h)
  have hid := List.find?_some hfind
  exact ⟨n, List.mem_of_find?_eq_some hfind, (beq_iff_eq.mp hid).symm⟩

theorem MapInv.findXapp_stored (h : MapInv m) (hmem : (n, x) ∈ m.left.entries)
    (hpos : n.ricId.ricReqId ≠ 0) : m.findXapp n.ricId.ricReqId = some (some x) := by
  have hsome : (m.left.findIf fun n' => n.ricId.ricReqId == n'.ricId.ricReqId).isSome := by
    rw [AssocTree.findIf, List.find?_isSome]
    exact ⟨(n, x), hmem, beq_self_eq_true _⟩
  obtain ⟨⟨n', x'⟩, hfind⟩ := Option.isSome_iff_exists.mp hsome
  have hid := List.find?_some hfind
  have hpair := h.id_unique (List.mem_of_find?_eq_some hfind) hmem (beq_iff_eq.mp hid).symm
  rw [MapRicId.findXapp, if_pos (Nat.pos_of_ne_zero hpos), hfind, hpair]
  rfl

/-- The search for a request of an xApp stops at an open request with the same id whose xApp has the
least id. -/
theorem MapInv.findRicReq_stored (h : MapInv m) (hmem : (n, x) ∈ m.left.entries) :
    ∃ n' x', m.findRicReq x = some n' ∧ (n', x') ∈ m.left.entries ∧ x'.ricId = x.ricId ∧
      ∀ e ∈ m.left.entries, e.2.ricId = x.ricId → x'.xappId ≤ e.2.xappId := by
  have hsome : (m.right.findIf (eqXappRicGenId x)).isSome := by
    rw [AssocTree.findIf, List.find?_isSome]
    exact ⟨(x, n), h.wellFormed.mem_iff.mpr hmem, eqXappRicGenId_iff.mpr rfl⟩
  obtain ⟨⟨x', n'⟩, hfind⟩ := Option.isSome_iff_exists.mp hsome
  obtain ⟨hmem', heq, hleast⟩ := h.wellFormed.right.findIf_least hfind
  refine ⟨n', x', ?_, h.wellFormed.mem_iff.mp hmem', (eqXappRicGenId_iff.mp heq).symm, ?_⟩
  · rw [MapRicId.findRicReq, hfind, Option.map_some]
  · intro e he hid
    have hright : (e.2, e.1) ∈ m.right.entries := h.wellFormed.mem_iff.mpr he
    exact xappId_le_of_cmp (hleast _ hright (eqXappRicGenId_iff.mpr hid.symm))

end Map

/-! ### The invariant of a run -/

section Handlers

variable {s t : NearRic Node} {x y : XappRicId} {id : RicGenId}

theorem handleRequest_eq_some_iff [BEq Node] {type : RicRequestType} {node : Node} {newId : ℕ} :
    handleRequest type s node x = some (newId, t) ↔
      s.validRequest node x = true ∧
      (∀ e ∈ s.mapRicId.left.entries, e.1.ricId.ricReqId ≠ s.newRicId) ∧ newId = s.newRicId ∧
      t = { s with
        mapRicId := BiMap.insert cmpE2NodeRicReq cmpXappRicGenId s.mapRicId
          (s.forwarded type node x) x
        reqId := s.reqId + 1 } := by
  rw [handleRequest]
  split_ifs with hvalid
  · rw [Option.map_eq_some_iff]
    constructor
    · rintro ⟨m, hadd, heq⟩
      obtain ⟨hnew, rfl⟩ := add_eq_some_iff.mp hadd
      obtain ⟨rfl, rfl⟩ := Prod.mk.inj heq
      exact ⟨hvalid, hnew, rfl, rfl⟩
    · rintro ⟨-, hnew, rfl, rfl⟩
      exact ⟨_, add_eq_some_iff.mpr ⟨hnew, rfl⟩, rfl⟩
  · simp [hvalid]

theorem handleAnswer_eq (s : NearRic Node) (id : RicGenId) (kind : Answer) :
    ∃ required ends moved, s.handleAnswer id kind = forwardAnswer required ends moved s id := by
  cases kind with
  | subscriptionResponse => exact ⟨true, false, true, rfl⟩
  | subscriptionDeleteResponse => exact ⟨false, true, false, rfl⟩
  | controlAcknowledge => exact ⟨true, true, false, rfl⟩
  | controlFailure => exact ⟨true, true, false, rfl⟩
  | indication => exact ⟨false, false, true, rfl⟩

/-- A forwarded answer leaves the map and the counter alone. -/
theorem forwardAnswer_frame {required ends moved : Bool} {sent : Option XappRicId}
    (h : forwardAnswer required ends moved s id = some (sent, t)) :
    t.mapRicId = s.mapRicId ∧ t.reqId = s.reqId := by
  rw [forwardAnswer] at h
  split at h
  · cases h
  · split_ifs at h
    obtain ⟨-, rfl⟩ := Prod.mk.inj (Option.some.inj h)
    exact ⟨rfl, rfl⟩
  · split at h
    · obtain ⟨-, rfl⟩ := Prod.mk.inj (Option.some.inj h)
      split_ifs <;> exact ⟨rfl, rfl⟩
    · cases h

/-- A forwarded answer goes to the xApp of the pair, under the id the xApp had chosen. -/
theorem forwardAnswer_sent {required ends moved : Bool}
    (h : forwardAnswer required ends moved s id = some (some y, t)) :
    ∃ n, (n, y) ∈ s.mapRicId.left.entries ∧ n.ricId.ricReqId = id.ricReqId % 65536 := by
  rw [forwardAnswer] at h
  split at h
  · cases h
  · split_ifs at h
    cases h
  · rename_i x hfind
    split at h
    · rename_i hids
      -- the fields that are not renumbered are asserted to be equal
      have hid : (if moved then { id with ricReqId := x.ricId.ricReqId } else x.ricId) =
          x.ricId := by
        split_ifs
        · rw [hids.1, hids.2]
        · rfl
      rw [hid] at h
      obtain ⟨hsent, -⟩ := Prod.mk.inj (Option.some.inj h)
      obtain rfl := Option.some.inj hsent
      exact findXapp_eq_some hfind
    · cases h

/-- An answer that ends a procedure and is built from the pair leaves the pair to be removed. -/
theorem forwardAnswer_ends {required : Bool}
    (h : forwardAnswer required true false s id = some (some y, t)) :
    t = { s with removing := y :: s.removing } := by
  rw [forwardAnswer] at h
  split at h
  · cases h
  · split_ifs at h
    cases h
  · split at h
    · obtain ⟨hsent, rfl⟩ := Prod.mk.inj (Option.some.inj h)
      rw [← Option.some.inj hsent]
      rfl
    · cases h

theorem MapInv.forwardAnswer_stored {n : E2NodeRicId Node} (h : MapInv s.mapRicId)
    (hmem : (n, x) ∈ s.mapRicId.left.entries) (hpos : n.ricId.ricReqId ≠ 0)
    (required ends moved : Bool) :
    forwardAnswer required ends moved s n.ricId =
      some (some x, if ends then { s with removing := x :: s.removing } else s) := by
  obtain ⟨hid, hlt⟩ := h.renumbered _ hmem
  have hfind := h.findXapp_stored hmem hpos
  have hids : n.ricId.ranFuncId = x.ricId.ranFuncId ∧ n.ricId.ricInstId = x.ricId.ricInstId := by
    rw [hid]
    exact ⟨rfl, rfl⟩
  rw [forwardAnswer, Nat.mod_eq_of_lt hlt, hfind]
  simp only [hids, and_self, if_true, ite_self]

end Handlers

section Runs

variable {tr : List (Event Node)} {s t : NearRic Node}

/-- The invariant of a run: the map holds exactly the open requests, under ids handed out so far. -/
structure RunInv (tr : List (Event Node)) (s : NearRic Node) : Prop where
  map : MapInv s.mapRicId
  perm : s.mapRicId.left.entries.Perm (openRequests tr)
  reqId_eq : s.reqId = 1021 + requestCount tr
  handedOut : ∀ e ∈ s.mapRicId.left.entries, ∃ k, 1021 ≤ k ∧ k < s.reqId ∧
    e.1.ricId.ricReqId = k % 65536

/-- An event that is no request and leaves the map and the counter alone keeps the invariant. -/
theorem RunInv.of_frame (h : RunInv tr s) {a : Event Node} (hreq : a.isRequest = false)
    (htrack : ∀ opened, track opened a = opened) (hmap : t.mapRicId = s.mapRicId)
    (hid : t.reqId = s.reqId) : RunInv (tr ++ [a]) t := by
  refine ⟨hmap ▸ h.map, ?_, ?_, ?_⟩
  · rw [hmap, openRequests_append, htrack]
    exact h.perm
  · rw [hid, h.reqId_eq, requestCount, requestCount, List.countP_append]
    simp [hreq]
  · rw [hmap, hid]
    exact h.handedOut

theorem RunInv.request [BEq Node] (h : RunInv tr s) {type : RicRequestType} {node : Node}
    {x : XappRicId} {newId : ℕ} (hkey : ∀ e ∈ s.mapRicId.left.entries, e.2 ≠ x)
    (hreq : handleRequest type s node x = some (newId, t)) :
    RunInv (tr ++ [.request type node x newId]) t := by
  obtain ⟨-, hnew, rfl, rfl⟩ := handleRequest_eq_some_iff.mp hreq
  have hperm := perm_insert_map (n := s.forwarded type node x) (x := x) h.map.wellFormed
  refine ⟨h.map.insert hnew hkey ⟨rfl, Nat.mod_lt _ (by omega)⟩, ?_, ?_, ?_⟩
  · rw [openRequests_append]
    exact hperm.trans (h.perm.cons _)
  · change s.reqId + 1 = _
    rw [h.reqId_eq, requestCount, requestCount, List.countP_append]
    rfl
  · -- the new id is the counter itself, the others were handed out before
    intro e he
    rcases List.mem_cons.mp (hperm.mem_iff.mp he) with rfl | he
    · refine ⟨s.reqId, ?_, Nat.lt_succ_self _, rfl⟩
      rw [h.reqId_eq]
      exact Nat.le_add_right _ _
    · obtain ⟨k, hle, hlt, heq⟩ := h.handedOut e he
      exact ⟨k, hle, Nat.lt_succ_of_lt hlt, heq⟩

theorem RunInv.remove (h : RunInv tr s) {x : XappRicId} {m : MapRicId Node}
    {removing : List XappRicId} (hrm : s.mapRicId.rm x = some m) :
    RunInv (tr ++ [.remove x]) { s with mapRicId := m, removing := removing } := by
  obtain ⟨hmap, hent⟩ := h.map.rm hrm
  refine ⟨hmap, ?_, ?_, ?_⟩
  · rw [openRequests_append, hent]
    exact h.perm.filter _
  · rw [h.reqId_eq, requestCount, requestCount, List.countP_append]
    rfl
  · intro e he
    rw [hent] at he
    exact h.handedOut e (List.mem_of_mem_filter he)

/-- The invariant holds all along a run. -/
theorem RicRun.runInv [BEq Node] (h : RicRun tr s) : RunInv tr s := by
  refine h.traceInvariant ?_ ?_
  · intro s hs
    subst hs
    exact ⟨mapInv_empty, .nil, rfl, fun _ he => (List.not_mem_nil he).elim⟩
  · intro tr a s t _ hinv hstep
    cases hstep with
    | setup => exact hinv.of_frame rfl (fun _ => rfl) rfl rfl
    | nodes => exact hinv.of_frame rfl (fun _ => rfl) rfl rfl
    | request hkey hreq => exact hinv.request hkey hreq
    | delete => exact hinv.of_frame rfl (fun _ => rfl) rfl rfl
    | @answer _ _ kind id sent hanswer =>
      obtain ⟨required, ends, moved, heq⟩ := handleAnswer_eq s id kind
      obtain ⟨hmap, hid⟩ := forwardAnswer_frame (heq.symm.trans hanswer)
      exact hinv.of_frame rfl (fun _ => rfl) hmap hid
    | remove _ hrm => exact hinv.remove hrm

/-! ### Isolation of the xApps -/

/-- An answer that is sent to an xApp belongs to an open request, the only one with its RIC request
id, and carries the id that this xApp had chosen. -/
def AnswersCreator (tr : List (Event Node)) (s : NearRic Node) : Prop :=
  ∀ kind id y t, s.handleAnswer id kind = some (some y, t) →
    ∃ e ∈ openRequests tr, e.1.ricId.ricReqId = id.ricReqId % 65536 ∧ e.2 = y ∧
      ∀ e' ∈ openRequests tr, e'.1.ricId.ricReqId = id.ricReqId % 65536 → e' = e

/-- Every kind of answer to a forwarded request is sent to its xApp. -/
def AnswersRequest (s : NearRic Node) (e : E2NodeRicId Node × XappRicId) : Prop :=
  ∀ kind, ∃ t, s.handleAnswer e.1.ricId kind = some (some e.2, t)

/-- A delete request is forwarded to the E2 node of the subscription, with its RIC request id. -/
def ForwardsOwn (s : NearRic Node) (e : E2NodeRicId Node × XappRicId) : Prop :=
  s.handleDelete e.2 = some (e.1.e2NodeId, e.1.ricId)

/-- No xApp with a smaller id has a request with the same id open. -/
def LeastXapp (tr : List (Event Node)) (x : XappRicId) : Prop :=
  ∀ e ∈ openRequests tr, e.2.ricId = x.ricId → x.xappId ≤ e.2.xappId

theorem RunInv.answersCreator (h : RunInv tr s) : AnswersCreator tr s := by
  intro kind id y t hanswer
  obtain ⟨required, ends, moved, heq⟩ := handleAnswer_eq s id kind
  obtain ⟨n, hmem, hid⟩ := forwardAnswer_sent (heq.symm.trans hanswer)
  refine ⟨(n, y), h.perm.mem_iff.mp hmem, hid, rfl, ?_⟩
  intro e' he' hid'
  exact h.map.id_unique (h.perm.mem_iff.mpr he') hmem (hid'.trans hid.symm)

theorem RunInv.answersRequest_iff (h : RunInv tr s) {e : E2NodeRicId Node × XappRicId}
    (he : e ∈ openRequests tr) : s.AnswersRequest e ↔ e.1.ricId.ricReqId ≠ 0 := by
  constructor
  · intro hall hzero
    -- `find_xapp_map_ric_id` asserts a positive id, so not even an indication gets through
    obtain ⟨t, ht⟩ := hall .indication
    change forwardAnswer false false true s e.1.ricId = _ at ht
    rw [forwardAnswer, hzero] at ht
    cases ht
  · intro hpos kind
    obtain ⟨required, ends, moved, heq⟩ := handleAnswer_eq s e.1.ricId kind
    rw [heq]
    exact ⟨_, h.map.forwardAnswer_stored (h.perm.mem_iff.mpr he) hpos required ends moved⟩

theorem RunInv.forwardsOwn_iff (h : RunInv tr s) {e : E2NodeRicId Node × XappRicId}
    (he : e ∈ openRequests tr) (htype : e.1.ricReqType = .subscription) :
    s.ForwardsOwn e ↔ LeastXapp tr e.2 := by
  rcases e with ⟨n, x⟩
  have hmem := h.perm.mem_iff.mpr he
  obtain ⟨n', x', hfind, hmem', hid', hleast⟩ := h.map.findRicReq_stored hmem
  constructor
  · -- the id that is forwarded identifies the pair that the search has found
    intro hown
    rw [ForwardsOwn, handleDelete, hfind] at hown
    simp only [Option.ite_none_right_eq_some, Option.some.injEq, Prod.mk.injEq] at hown
    obtain ⟨-, -, hric⟩ := hown
    have hreq : n'.ricId.ricReqId = n.ricId.ricReqId := by rw [← hric]
    obtain ⟨rfl, rfl⟩ := Prod.mk.inj (h.map.id_unique hmem' hmem hreq)
    intro e he hid
    exact hleast e (h.perm.mem_iff.mpr he) hid
  · intro hmin
    -- the pair found has the least xApp id, and so has the xApp's own
    have hxapp : x'.xappId = x.xappId :=
      Nat.le_antisymm (hleast _ hmem rfl) (hmin _ (h.perm.mem_iff.mp hmem') hid')
    have hx : x' = x := by
      cases x
      cases x'
      simp_all
    obtain ⟨rfl, -⟩ := Prod.mk.inj (h.map.key_unique hmem' hmem hx)
    obtain ⟨hric, -⟩ := h.map.renumbered _ hmem
    rw [ForwardsOwn, handleDelete, hfind]
    change (if n'.ricReqType = .subscription then _ else _) = some (n'.e2NodeId, n'.ricId)
    rw [if_pos htype, ← hric]

end Runs

/-- In every state of a run, answers reach the xApp that made the request, under its own id, as long
as the RIC request id is not 0; and a delete request is forwarded for the xApp's own subscription
exactly when no xApp with a smaller id has a request with the same id open. -/
theorem isolation [BEq Node] (tr : List (Event Node)) (s : NearRic Node) (hrun : RicRun tr s) :
    AnswersCreator tr s ∧
    (∀ e ∈ openRequests tr, s.AnswersRequest e ↔ e.1.ricId.ricReqId ≠ 0) ∧
    ∀ e ∈ openRequests tr, e.1.ricReqType = .subscription →
      (s.ForwardsOwn e ↔ LeastXapp tr e.2) := by
  have h := RicRun.runInv hrun
  exact ⟨h.answersCreator, fun e he => h.answersRequest_iff he,
    fun e he htype => h.forwardsOwn_iff he htype⟩

/-- The request id of a first subscription, as every xApp numbers it. -/
def firstRicId : RicGenId := ⟨0, 0, 3⟩

/-- The first xApp subscribes at E2 node 0, the second one at E2 node 1, with equal ids. -/
def twoSubscribers : List (Event ℕ) :=
  [.nodes [0, 1], .setup, .setup, .request .subscription 0 ⟨firstRicId, 7⟩ 1021,
    .request .subscription 1 ⟨firstRicId, 8⟩ 1022]

/-- The state after the first subscription. -/
def oneSubscribed : NearRic ℕ :=
  { mapRicId := BiMap.insert cmpE2NodeRicReq cmpXappRicGenId .empty
      ⟨0, { firstRicId with ricReqId := 1021 }, .subscription⟩ ⟨firstRicId, 7⟩
    e2Nodes := [0, 1], xappId := 9, reqId := 1022, removing := [] }

/-- The state after both subscriptions. -/
def twoSubscribed : NearRic ℕ :=
  { oneSubscribed with
    mapRicId := BiMap.insert cmpE2NodeRicReq cmpXappRicGenId oneSubscribed.mapRicId
      ⟨1, { firstRicId with ricReqId := 1022 }, .subscription⟩ ⟨firstRicId, 8⟩
    reqId := 1023 }

theorem ricRun_twoSubscribers : RicRun twoSubscribers twoSubscribed := by
  have hnodes : RicRun [.nodes [0, 1]] { init with e2Nodes := [0, 1] } := .first rfl .nodes
  have hsetup := (hnodes.step .setup).step .setup
  have hfirst := hsetup.step (a := .request .subscription 0 ⟨firstRicId, 7⟩ 1021)
    (t := oneSubscribed) (.request (fun e he => (List.not_mem_nil he).elim) rfl)
  refine hfirst.step (a := .request .subscription 1 ⟨firstRicId, 8⟩ 1022) (.request ?_ rfl)
  intro e he
  obtain rfl := List.mem_singleton.mp he
  decide

theorem isolation_twoSubscribers :
    twoSubscribed.ForwardsOwn (⟨0, { firstRicId with ricReqId := 1021 }, .subscription⟩,
      ⟨firstRicId, 7⟩) := by
  refine ((isolation _ _ ricRun_twoSubscribers).2.2 _ ?_ rfl).mpr ?_
  · decide
  · unfold LeastXapp
    decide

/-- The deletion of the second xApp's subscription is forwarded to the E2 node of the first one,
with the first one's RIC request id. -/
theorem not_forwardsOwn_twoSubscribers :
    RicRun twoSubscribers twoSubscribed ∧
    (⟨1, { firstRicId with ricReqId := 1022 }, .subscription⟩, ⟨firstRicId, 8⟩) ∈
      openRequests twoSubscribers ∧
    twoSubscribed.handleDelete ⟨firstRicId, 8⟩ = some (0, { firstRicId with ricReqId := 1021 }) ∧
    ¬ twoSubscribed.ForwardsOwn (⟨1, { firstRicId with ricReqId := 1022 }, .subscription⟩,
      ⟨firstRicId, 8⟩) := by
  refine ⟨ricRun_twoSubscribers, by decide, rfl, ?_⟩
  intro hown
  cases hown

/-! ### Fresh request ids -/

/-- The next id is neither 0 nor in the map, no valid request fails the assertion that its id is
new, and every id in the map passes the assertion that it is positive. -/
def HandsOutFresh [BEq Node] (s : NearRic Node) : Prop :=
  s.newRicId ≠ 0 ∧ (∀ e ∈ s.mapRicId.left.entries, e.1.ricId.ricReqId ≠ s.newRicId) ∧
  (∀ type node x, s.validRequest node x = true → (handleRequest type s node x).isSome = true) ∧
  ∀ e ∈ s.mapRicId.left.entries, (s.mapRicId.findXapp e.1.ricId.ricReqId).isSome = true

section Fresh

variable [BEq Node] {tr : List (Event Node)} {s : NearRic Node}

/-- Before the counter wraps, the ids in the map are the numbers below it. -/
theorem RunInv.handsOutFresh (h : RunInv tr s) (hcount : requestCount tr < 64515) :
    s.HandsOutFresh := by
  have hreq := h.reqId_eq
  have hnew : s.newRicId = s.reqId := Nat.mod_eq_of_lt (by omega)
  have hstored : ∀ e ∈ s.mapRicId.left.entries,
      0 < e.1.ricId.ricReqId ∧ e.1.ricId.ricReqId < s.newRicId := by
    intro e he
    obtain ⟨k, hle, hlt, heq⟩ := h.handedOut e he
    rw [Nat.mod_eq_of_lt (by omega)] at heq
    omega
  have hfresh : ∀ e ∈ s.mapRicId.left.entries, e.1.ricId.ricReqId ≠ s.newRicId :=
    fun e he => Nat.ne_of_lt (hstored e he).2
  refine ⟨by omega, hfresh, ?_, ?_⟩
  · intro type node x hvalid
    rw [Option.isSome_iff_exists]
    exact ⟨_, handleRequest_eq_some_iff.mpr ⟨hvalid, hfresh, rfl, rfl⟩⟩
  · intro e he
    rw [MapRicId.findXapp, if_pos (hstored e he).1]
    rfl

/-- After 64515 requests the counter has reached 65536. -/
theorem RunInv.not_handsOutFresh (h : RunInv tr s) (hcount : requestCount tr = 64515) :
    ¬ s.HandsOutFresh := by
  intro hfresh
  apply hfresh.1
  rw [newRicId, h.reqId_eq, hcount]

end Fresh

/-- In all states along a run ids are fresh and the assertions hold, exactly when fewer than 64515
requests have been forwarded. -/
theorem handsOutFresh_iff [BEq Node] (tr : List (Event Node)) (s : NearRic Node)
    (hrun : RicRun tr s) :
    (∀ pre t, pre <+: tr → RicRun pre t → t.HandsOutFresh) ↔ requestCount tr < 64515 := by
  constructor
  · intro hall
    by_contra hcount
    -- the run passes through a state with exactly 64515 requests
    obtain ⟨pre, t, hpre, ht, heq⟩ :=
      hrun.exists_prefix_countP (p := Event.isRequest) (Nat.le_of_not_lt hcount)
    exact (RicRun.runInv ht).not_handsOutFresh heq (hall pre t hpre ht)
  · intro hcount pre t hpre ht
    have hle : requestCount pre ≤ requestCount tr := hpre.sublist.countP_le
    exact (RicRun.runInv ht).handsOutFresh (Nat.lt_of_le_of_lt hle hcount)

theorem handsOutFresh_twoSubscribed : twoSubscribed.HandsOutFresh :=
  (handsOutFresh_iff _ _ ricRun_twoSubscribers).mpr (by decide) _ _ (List.prefix_refl _)
    ricRun_twoSubscribers

/-- The `i`-th control request of an xApp. -/
def controlId (i : ℕ) : XappRicId := ⟨⟨i, 0, 3⟩, 7⟩

/-- An xApp sends control requests one after the other, and each is acknowledged. -/
def controlLoop : ℕ → List (Event ℕ)
  | 0 => [.nodes [0]] ++ [.setup]
  | i + 1 => controlLoop i ++ [.request .control 0 (controlId i) (1021 + i)] ++
      [.answer .controlAcknowledge ⟨1021 + i, 0, 3⟩] ++ [.remove (controlId i)]

/-- A control request of an xApp to an idle RIC, its acknowledgement and the removal of the pair. -/
theorem ricRun_control_round [BEq Node] {tr : List (Event Node)} {s : NearRic Node}
    (hs : RicRun tr s) (hempty : s.mapRicId.left.entries = []) {node : Node} {x : XappRicId}
    (hvalid : s.validRequest node x = true) (hpos : s.newRicId ≠ 0) :
    ∃ t, RicRun (tr ++ [.request .control node x s.newRicId] ++
        [.answer .controlAcknowledge { x.ricId with ricReqId := s.newRicId }] ++ [.remove x]) t ∧
      t.mapRicId.left.entries = [] ∧ t.e2Nodes = s.e2Nodes ∧ t.xappId = s.xappId := by
  have hnone : ∀ P : E2NodeRicId Node × XappRicId → Prop, ∀ e ∈ s.mapRicId.left.entries, P e := by
    intro P e he
    rw [hempty] at he
    exact (List.not_mem_nil he).elim
  have hreq : handleRequest .control s node x = some (s.newRicId, _) :=
    handleRequest_eq_some_iff.mpr ⟨hvalid, hnone _, rfl, rfl⟩
  have hrequested := hs.step (.request (hnone _) hreq)
  have hinv := (RicRun.runInv hrequested).map
  -- the map holds this pair only
  have hent : (BiMap.insert cmpE2NodeRicReq cmpXappRicGenId s.mapRicId
      (s.forwarded .control node x) x).left.entries = [(s.forwarded .control node x, x)] := by
    have hperm := perm_insert_map (n := s.forwarded .control node x) (x := x)
      (RicRun.runInv hs).map.wellFormed
    rw [hempty] at hperm
    exact List.perm_singleton.mp hperm
  have hmem := hent ▸ List.mem_singleton_self (s.forwarded .control node x, x)
  have hacknowledged : handleAnswer _ _ .controlAcknowledge = some _ :=
    hinv.forwardAnswer_stored hmem hpos true true false
  have hanswered := hrequested.step (.answer hacknowledged)
  obtain ⟨m, hrm, -, hment⟩ := hinv.rm_stored hmem
  refine ⟨_, hanswered.step (.remove (List.mem_cons_self ..) hrm), ?_, rfl, rfl⟩
  change m.left.entries = []
  rw [hment, hent]
  simp

theorem ricRun_controlLoop (n : ℕ) (hn : n ≤ 64515) :
    ∃ s, RicRun (controlLoop n) s ∧ s.mapRicId.left.entries = [] ∧ s.e2Nodes = [0] ∧
      s.xappId = 8 ∧ requestCount (controlLoop n) = n := by
  induction n with
  | zero =>
    have hnodes : RicRun [.nodes [0]] { init with e2Nodes := [0] } := .first rfl .nodes
    exact ⟨_, hnodes.step .setup, rfl, rfl, rfl, rfl⟩
  | succ i ih =>
    -- the map is empty again after each round, so only the counter remembers the rounds
    obtain ⟨s, hs, hempty, hnodes, hxapp, hcount⟩ := ih (by omega)
    have hnew : s.newRicId = 1021 + i := by
      rw [newRicId, (RicRun.runInv hs).reqId_eq, hcount]
      exact Nat.mod_eq_of_lt (by omega)
    have hvalid : s.validRequest 0 (controlId i) = true := by
      simp [validRequest, hnodes, hxapp, controlId]
    obtain ⟨t, ht, htent, htnodes, htxapp⟩ :=
      ricRun_control_round hs hempty hvalid (by omega)
    rw [hnew] at ht
    refine ⟨t, ht, htent, htnodes.trans hnodes, htxapp.trans hxapp, ?_⟩
    simp only [requestCount, controlLoop, List.countP_append] at hcount ⊢
    rw [hcount]
    rfl

/-- After 64515 acknowledged control requests nothing is open, and the next request would get the
id 0. -/
theorem not_handsOutFresh_controlLoop :
    ∃ s, RicRun (controlLoop 64515) s ∧ s.mapRicId.left.entries = [] ∧ s.newRicId = 0 ∧
      ¬ s.HandsOutFresh := by
  obtain ⟨s, hs, hempty, -, -, hcount⟩ := ricRun_controlLoop 64515 (Nat.le_refl _)
  have hzero : s.newRicId = 0 := by
    rw [newRicId, (RicRun.runInv hs).reqId_eq, hcount]
  exact ⟨s, hs, hempty, hzero, (RicRun.runInv hs).not_handsOutFresh hcount⟩

end NearRic

end LlmHric.Flexric
