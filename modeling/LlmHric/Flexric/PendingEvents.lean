import LlmHric.Flexric.Bimap
import LlmHric.Flexric.Ids
import LlmHric.Library.Run
import Mathlib.Data.List.Nodup

/-! A connected xApp keeps one timer for every request that waits for its response, in a two-way map
from timer descriptors to pending events. The callers of the xApp issue requests from their own
threads; the event loop handles the responses. A subscription request adds its pending event and is
then sent, a delete request is sent and then adds its event.

The events carry the id of their request, but the map compares their kinds only. A response
removes the first event of its kind that a search meets. -/

namespace LlmHric.Flexric

/-! ### The map -/

/-- `pending_event_t` -/
inductive PendingEvent
  | setupRequest
  | subscriptionRequest
  | subscriptionDeleteRequest
  | controlRequest
  | e42SetupRequest
  | e42RicSubscriptionRequest
  | ricSubscriptionDeleteRequest
  | e42RicSubscriptionDeleteRequest
  | e42RicControlRequest
  deriving DecidableEq

/-- The number of a kind. -/
def PendingEvent.toNat : PendingEvent → ℕ
  | setupRequest => 0
  | subscriptionRequest => 1
  | subscriptionDeleteRequest => 2
  | controlRequest => 3
  | e42SetupRequest => 4
  | e42RicSubscriptionRequest => 5
  | ricSubscriptionDeleteRequest => 6
  | e42RicSubscriptionDeleteRequest => 7
  | e42RicControlRequest => 8

theorem PendingEvent.toNat_inj {a b : PendingEvent} : a.toNat = b.toNat ↔ a = b := by
  constructor
  · intro h
    cases a <;> cases b <;> first | rfl | cases h
  · exact congrArg _

/-- A request of the xApp that waits for a response. -/
structure PendingRequest where
  ev : PendingEvent
  id : RicGenId
  deriving DecidableEq

/-- `pending_event_xapp_t` -/
structure PendingEventXapp where
  ev : PendingEvent
  id : RicGenId
  waitMs : ℕ
  deriving DecidableEq

def PendingEventXapp.request (e : PendingEventXapp) : PendingRequest := ⟨e.ev, e.id⟩

/-- `cmp_pending_event`: the kind is the first field of an event, and the only one compared. -/
def cmpPendingEvent (a b : PendingEventXapp) : Ordering := compare a.ev.toNat b.ev.toNat

instance : Std.TransCmp cmpPendingEvent :=
  transCmp_on (compare : ℕ → ℕ → Ordering) fun e : PendingEventXapp => e.ev.toNat

@[simp] theorem cmpPendingEvent_eq_iff {a b : PendingEventXapp} :
    cmpPendingEvent a b = .eq ↔ a.ev = b.ev := by
  rw [cmpPendingEvent, Nat.compare_eq_eq, PendingEvent.toNat_inj]

/-- The map `pending` of the xApp. -/
abbrev PendingMap := BiMap ℕ PendingEventXapp

namespace PendingMap

/-- The map is well formed for the comparisons it is initialised with. -/
abbrev WellFormed (m : PendingMap) : Prop := BiMap.WellFormed cmpFd cmpPendingEvent m

/-- `add_pending_event` -/
def addPendingEvent (m : PendingMap) (fd : ℕ) (ev : PendingEventXapp) : Option PendingMap :=
  if 0 < fd then some (BiMap.insert cmpFd cmpPendingEvent m fd ev) else none

/-- `rm_pending_event_ev` -/
def rmPendingEventEv (m : PendingMap) (ev : PendingEventXapp) : Option (ℕ × PendingMap) :=
  match BiMap.extractRight cmpFd cmpPendingEvent m ev with
  | none => none
  | some (fd, m') =>
    if m.left.size = m'.left.size + 1 ∧ 0 < fd then some (fd, m') else none

/-- `rm_pending_event_ev` removes one pair, which was added for the given request, and returns its
descriptor. -/
def RemovesOwn (m : PendingMap) (r : PendingRequest) : Prop :=
  ∃ fd ev m', m.rmPendingEventEv ⟨r.ev, r.id, 0⟩ = some (fd, m') ∧ ev.request = r ∧
    m.left.entries.Perm ((fd, ev) :: m'.left.entries)

/-- The search for the kind of a request stops at an event of this request. -/
def FindsOwn (m : PendingMap) (r : PendingRequest) : Prop :=
  ∃ ev fd, m.right.lookup cmpPendingEvent ⟨r.ev, r.id, 0⟩ = some (ev, fd) ∧ ev.request = r

/-- The map holds one pair for each of the given requests, under descriptors of its own. -/
structure Exact (m : PendingMap) (requests : List PendingRequest) : Prop where
  wellFormed : m.WellFormed
  nodup : (m.left.entries.map Prod.fst).Nodup
  pos : ∀ e ∈ m.left.entries, 0 < e.1
  perm : (m.left.entries.map fun e => e.2.request).Perm requests

section Map

variable {m m' : PendingMap} {requests : List PendingRequest} {fd : ℕ} {ev : PendingEventXapp}
  {r : PendingRequest}

theorem exact_empty : Exact BiMap.empty [] :=
  ⟨BiMap.wellFormed_empty, .nil, fun _ he => (List.not_mem_nil he).elim, .nil⟩

/-- A descriptor belongs to one pair. -/
theorem Exact.eq_of_fst_eq (h : m.Exact requests) {a b : ℕ × PendingEventXapp}
    (ha : a ∈ m.left.entries) (hb : b ∈ m.left.entries) (hab : a.1 = b.1) : a = b :=
  List.inj_on_of_nodup_map h.nodup ha hb hab

/-- A new timer has a descriptor of its own. -/
theorem Exact.add (h : m.Exact requests) (ev : PendingEventXapp) (hpos : 0 < fd)
    (hfd : ∀ e ∈ m.left.entries, e.1 ≠ fd) :
    ∃ m', m.addPendingEvent fd ev = some m' ∧ m'.Exact (ev.request :: requests) := by
  have hperm : (BiMap.insert cmpFd cmpPendingEvent m fd ev).left.entries.Perm
      ((fd, ev) :: m.left.entries) := AssocTree.perm_insert h.wellFormed.left fd ev
  refine ⟨_, if_pos hpos, h.wellFormed.insert fd ev, ?_, ?_, ?_⟩
  · rw [(hperm.map _).nodup_iff, List.map_cons, List.nodup_cons, List.mem_map]
    exact ⟨fun ⟨e, he, heq⟩ => hfd e he heq, h.nodup⟩
  · intro e he
    rcases List.mem_cons.mp (hperm.mem_iff.mp he) with rfl | he
    · exact hpos
    · exact h.pos e he
  · exact (hperm.map _).trans (h.perm.cons _)

/-- The pair that a search stops at is removed from both trees. -/
theorem Exact.rm_of_lookup (h : m.Exact requests)
    (hlookup : m.right.lookup cmpPendingEvent ⟨r.ev, r.id, 0⟩ = some (ev, fd)) :
    ∃ m', m.rmPendingEventEv ⟨r.ev, r.id, 0⟩ = some (fd, m') ∧ m'.WellFormed ∧
      m.left.entries.Perm ((fd, ev) :: m'.left.entries) := by
  obtain ⟨hright, hcmp⟩ := AssocTree.lookup_mem hlookup
  have hleft : (fd, ev) ∈ m.left.entries := h.wellFormed.mem_iff.mp hright
  -- the search of the left tree stops at the same pair, since no other has its descriptor
  obtain ⟨e, he⟩ := h.wellFormed.left.lookup_isSome hleft (cmpFd_eq_iff.mpr rfl)
  obtain ⟨hmem, hfd⟩ := AssocTree.lookup_mem he
  obtain rfl := h.eq_of_fst_eq hleft hmem (cmpFd_eq_iff.mp hfd)
  obtain ⟨m', hextract, hlwf, hrwf, hl, hr⟩ :=
    BiMap.extractRight_of_lookup h.wellFormed hlookup he hcmp
  have hperm : m.left.entries.Perm ((fd, ev) :: m'.left.entries) := by
    obtain ⟨pre, post, hent, hent'⟩ := hl
    rw [hent, hent']
    exact List.perm_middle
  have hsize : m.left.size = m'.left.size + 1 := by
    rw [h.wellFormed.left.size_eq, hlwf.size_eq, hperm.length_eq, List.length_cons]
  refine ⟨m', ?_, h.wellFormed.of_extract hlwf hrwf hl hr, hperm⟩
  simp only [rmPendingEventEv, hextract, if_pos (And.intro hsize (h.pos _ hleft))]

/-- What a removal returns is what the search stopped at. -/
theorem Exact.lookup_of_rm (h : m.Exact requests)
    (hrm : m.rmPendingEventEv ⟨r.ev, r.id, 0⟩ = some (fd, m')) :
    ∃ ev, m.right.lookup cmpPendingEvent ⟨r.ev, r.id, 0⟩ = some (ev, fd) := by
  rcases hlookup : m.right.lookup cmpPendingEvent ⟨r.ev, r.id, 0⟩ with _ | ⟨ev, fd'⟩
  · simp [rmPendingEventEv, BiMap.extractRight, AssocTree.extract_of_lookup_none hlookup] at hrm
  · obtain ⟨m'', hrm', -⟩ := h.rm_of_lookup hlookup
    obtain ⟨rfl, -⟩ := Prod.mk.inj (Option.some.inj (hrm'.symm.trans hrm))
    exact ⟨ev, rfl⟩

/-- A removal takes the event of the given request exactly when its search stops there. -/
theorem Exact.removesOwn_iff (h : m.Exact requests) : m.RemovesOwn r ↔ m.FindsOwn r := by
  constructor
  · rintro ⟨fd, ev, m', hrm, hreq, hperm⟩
    obtain ⟨ev', hlookup⟩ := h.lookup_of_rm hrm
    have hmem : (fd, ev) ∈ m.left.entries := hperm.mem_iff.mpr List.mem_cons_self
    have hmem' : (fd, ev') ∈ m.left.entries :=
      h.wellFormed.mem_iff.mp (AssocTree.lookup_mem hlookup).1
    obtain ⟨-, rfl⟩ := Prod.mk.inj (h.eq_of_fst_eq hmem hmem' rfl)
    exact ⟨ev, fd, hlookup, hreq⟩
  · rintro ⟨ev, fd, hlookup, hreq⟩
    obtain ⟨m', hrm, -, hperm⟩ := h.rm_of_lookup hlookup
    exact ⟨fd, ev, m', hrm, hreq, hperm⟩

/-- The search for a kind stops at an event of a request that waits. -/
theorem Exact.findsOwn (h : m.Exact requests) (hr : r ∈ requests)
    (halone : ∀ r' ∈ requests, r'.ev = r.ev → r' = r) : m.FindsOwn r := by
  obtain ⟨⟨fd, ev⟩, hmem, rfl⟩ := List.mem_map.mp (h.perm.mem_iff.mpr hr)
  have hright : (ev, fd) ∈ m.right.entries := h.wellFormed.mem_iff.mpr hmem
  obtain ⟨⟨ev', fd'⟩, hlookup⟩ := h.wellFormed.right.lookup_isSome (k := ⟨ev.ev, ev.id, 0⟩) hright
    (cmpPendingEvent_eq_iff.mpr rfl)
  obtain ⟨hmem', hcmp⟩ := AssocTree.lookup_mem hlookup
  have hwaits : ev'.request ∈ requests :=
    h.perm.mem_iff.mp (List.mem_map.mpr ⟨_, h.wellFormed.mem_iff.mp hmem', rfl⟩)
  exact ⟨ev', fd', hlookup, halone _ hwaits (cmpPendingEvent_eq_iff.mp hcmp).symm⟩

/-- A request whose event is found waits. -/
theorem Exact.mem_of_findsOwn (h : m.Exact requests) (hown : m.FindsOwn r) : r ∈ requests := by
  obtain ⟨ev, fd, hlookup, rfl⟩ := hown
  have hmem := h.wellFormed.mem_iff.mp (AssocTree.lookup_mem hlookup).1
  exact h.perm.mem_iff.mp (List.mem_map.mpr ⟨_, hmem, rfl⟩)

/-- All searches for a kind stop at one event, since the ids are not compared. -/
theorem FindsOwn.unique {r' : PendingRequest} (h : m.FindsOwn r) (h' : m.FindsOwn r')
    (hev : r'.ev = r.ev) : r' = r := by
  obtain ⟨ev, fd, hlookup, rfl⟩ := h
  obtain ⟨ev', fd', hlookup', rfl⟩ := h'
  have hsame : m.right.lookup cmpPendingEvent ⟨ev'.request.ev, ev'.request.id, 0⟩ =
      m.right.lookup cmpPendingEvent ⟨ev.request.ev, ev.request.id, 0⟩ := by
    rw [hev]
    rfl
  obtain ⟨rfl, -⟩ := Prod.mk.inj (Option.some.inj (hlookup'.symm.trans (hsame.trans hlookup)))
  rfl

/-- Without the pair of an answered request, the map is exact for the others. -/
theorem Exact.rm (h : m.Exact requests) (hown : m.FindsOwn r) :
    ∃ fd m', m.rmPendingEventEv ⟨r.ev, r.id, 0⟩ = some (fd, m') ∧ m'.Exact (requests.erase r) := by
  obtain ⟨ev, fd, hlookup, rfl⟩ := hown
  obtain ⟨m', hrm, hwf, hperm⟩ := h.rm_of_lookup hlookup
  refine ⟨fd, m', hrm, hwf, ?_, ?_, ?_⟩
  · have hnodup := (hperm.map Prod.fst).nodup_iff.mp h.nodup
    exact (List.nodup_cons.mp hnodup).2
  · intro e he
    exact h.pos e (hperm.mem_iff.mpr (List.mem_cons_of_mem _ he))
  · have hreq := (hperm.map fun e => e.2.request).symm.trans h.perm
    simpa using hreq.erase ev.request

end Map

end PendingMap

/-- The xApp: the registry of active procedures, whose keys are counted up, and the pending
events. A registered id carries its key as the number of the request. -/
structure XApp where
  keyId : ℕ
  actProc : List RicGenId
  pending : PendingMap

namespace XApp

/-- `generate_ric_gen_id` -/
def generateRicGenId (s : XApp) (ranFuncId : ℕ) : Option (RicGenId × XApp) :=
  if s.keyId < 65536 then
    some (⟨s.keyId, 0, ranFuncId⟩,
      { s with keyId := s.keyId + 1, actProc := s.actProc ++ [⟨s.keyId, 0, ranFuncId⟩] })
  else none

/-- `find_act_proc` -/
def findActProc (s : XApp) (ricReqId : ℕ) : Option RicGenId :=
  s.actProc.find? fun id => id.ricReqId = ricReqId

/-- `rm_act_proc` -/
def rmActProc (s : XApp) (ricReqId : ℕ) : Option XApp :=
  match s.findActProc ricReqId with
  | none => none
  | some _ => some { s with actProc := s.actProc.filter fun id => id.ricReqId ≠ ricReqId }

/-- `add_pending_event_xapp`, with the descriptor of the new timer. -/
def addPendingEventXapp (s : XApp) (fdTimer : ℕ) (ev : PendingEventXapp) : Option XApp :=
  if 0 < ev.waitMs then
    (s.pending.addPendingEvent fdTimer ev).map fun pending => { s with pending }
  else none

/-- `rm_pending_event_xapp`: the descriptor that is closed. -/
def rmPendingEventXapp (s : XApp) (ev : PendingEventXapp) : Option (ℕ × XApp) :=
  (s.pending.rmPendingEventEv ev).map fun p => (p.1, { s with pending := p.2 })

/-- The part of `e2ap_handle_e42_ric_subscription_request_xapp` before the message is sent. -/
def handleSubscriptionRequest (s : XApp) (id : RicGenId) (fdTimer : ℕ) : Option XApp :=
  s.addPendingEventXapp fdTimer ⟨.e42RicSubscriptionRequest, id, 5000⟩

/-- The part of `e2ap_handle_e42_subscription_delete_request_xapp` after the message is sent. -/
def handleSubscriptionDeleteRequest (s : XApp) (id : RicGenId) (fdTimer : ℕ) : Option XApp :=
  s.addPendingEventXapp fdTimer ⟨.e42RicSubscriptionDeleteRequest, id, 10000⟩

/-- The handler of a response: it finds the procedure by the number of its request and removes the
pending event of a kind. -/
def handleResponse (ev : PendingEvent) (s : XApp) (ricReqId : ℕ) : Option (ℕ × XApp) :=
  match s.findActProc ricReqId with
  | none => none
  | some id => s.rmPendingEventXapp ⟨ev, id, 0⟩

/-- `e2ap_handle_subscription_response_xapp` -/
def handleSubscriptionResponse : XApp → ℕ → Option (ℕ × XApp) :=
  handleResponse .e42RicSubscriptionRequest

/-- `e2ap_handle_subscription_delete_response_xapp` -/
def handleSubscriptionDeleteResponse : XApp → ℕ → Option (ℕ × XApp) :=
  handleResponse .e42RicSubscriptionDeleteRequest

end XApp

/-! ### Callers and messages -/

/-- A step of a caller or of the event loop. -/
inductive XAppAction
  /-- `report_sm_sync_xapp` up to the pending event. -/
  | report (ranFuncId fdTimer : ℕ)
  /-- A subscription request is sent. -/
  | sendReport (id : RicGenId)
  /-- `rm_report_sm_sync_xapp` up to the message. -/
  | rmReport (ricReqId : ℕ)
  /-- A delete request that was sent adds its pending event. -/
  | addDelete (id : RicGenId) (fdTimer : ℕ)
  /-- The end of a wait that unregisters the procedure: of a deletion, or after a timeout. -/
  | rmActProc (ricReqId : ℕ)
  /-- The event loop handles the response to a subscription request. -/
  | subscriptionResponse (id : RicGenId)
  /-- The event loop handles the response to a delete request. -/
  | subscriptionDeleteResponse (id : RicGenId)

/-- The xApp, and what it does not store: the ids it issued, the requests that are still to be
sent, that are to add their event, that were sent, and that added their event and have no response
yet. -/
structure World where
  xapp : XApp
  issued : List RicGenId
  toSend : List RicGenId
  toAdd : List RicGenId
  sent : List PendingRequest
  unanswered : List PendingRequest

namespace World

/-- The world after the setup of the xApp. -/
def init : World := ⟨⟨0, [], BiMap.empty⟩, [], [], [], [], []⟩

def subscription (id : RicGenId) : PendingRequest := ⟨.e42RicSubscriptionRequest, id⟩

def subscriptionDelete (id : RicGenId) : PendingRequest := ⟨.e42RicSubscriptionDeleteRequest, id⟩

/-- The request that a step answers. -/
def answered : XAppAction → Option PendingRequest
  | .subscriptionResponse id => some (subscription id)
  | .subscriptionDeleteResponse id => some (subscriptionDelete id)
  | _ => none

def respond (w : World) (r : PendingRequest) (handler : XApp → ℕ → Option (ℕ × XApp)) :
    Option World :=
  (handler w.xapp r.id.ricReqId).map fun p =>
    { w with xapp := p.2, sent := w.sent.erase r, unanswered := w.unanswered.erase r }

/-- One step; an assertion that fails is `none`. -/
def step (w : World) : XAppAction → Option World
  | .report ranFuncId fdTimer =>
    match w.xapp.generateRicGenId ranFuncId with
    | none => none
    | some (id, xapp) => (xapp.handleSubscriptionRequest id fdTimer).map fun xapp =>
      { w with
        xapp, issued := w.issued ++ [id], toSend := id :: w.toSend,
        unanswered := subscription id :: w.unanswered }
  | .sendReport id =>
    some { w with toSend := w.toSend.erase id, sent := subscription id :: w.sent }
  | .rmReport ricReqId =>
    match w.xapp.findActProc ricReqId with
    | none => none
    | some id => some { w with toAdd := id :: w.toAdd, sent := subscriptionDelete id :: w.sent }
  | .addDelete id fdTimer => (w.xapp.handleSubscriptionDeleteRequest id fdTimer).map fun xapp =>
      { w with
        xapp, toAdd := w.toAdd.erase id, unanswered := subscriptionDelete id :: w.unanswered }
  | .rmActProc ricReqId => (w.xapp.rmActProc ricReqId).map fun xapp => { w with xapp }
  | .subscriptionResponse id => w.respond (subscription id) XApp.handleSubscriptionResponse
  | .subscriptionDeleteResponse id =>
    w.respond (subscriptionDelete id) XApp.handleSubscriptionDeleteResponse

/-- The descriptor of a new timer is positive and not in use. -/
def NewTimer (w : World) (fdTimer : ℕ) : Prop :=
  0 < fdTimer ∧ ∀ e ∈ w.xapp.pending.left.entries, e.1 ≠ fdTimer

/-- The steps that callers, the kernel and the RIC can take: timers are new, a caller follows its
program, and a response answers a request that was sent. -/
def Allowed (w : World) : XAppAction → Prop
  | .report _ fdTimer => w.NewTimer fdTimer ∧ w.xapp.keyId < 65536
  | .sendReport id => id ∈ w.toSend
  | .rmReport ricReqId => (w.xapp.findActProc ricReqId).isSome = true
  | .addDelete id fdTimer => id ∈ w.toAdd ∧ w.NewTimer fdTimer
  | .rmActProc ricReqId => (w.xapp.findActProc ricReqId).isSome = true
  | .subscriptionResponse id => subscription id ∈ w.sent
  | .subscriptionDeleteResponse id => subscriptionDelete id ∈ w.sent

/-- The map holds one pair for each unanswered request. -/
def Exact (w : World) : Prop := w.xapp.pending.Exact w.unanswered

/-- A step fails no assertion, leaves an exact map, and a response removes the pair that was added
for its request. -/
def Handles (w : World) (a : XAppAction) : Prop :=
  (∃ w', w.step a = some w' ∧ w'.Exact) ∧ ∀ r ∈ answered a, w.xapp.pending.RemovesOwn r

/-- The procedure of the answered request is registered, its event has been added, and no other
request of its kind waits. -/
def OwnEventAlone (w : World) (a : XAppAction) : Prop :=
  ∀ r ∈ answered a, r.id ∈ w.xapp.actProc ∧ r ∈ w.unanswered ∧
    ∀ r' ∈ w.unanswered, r'.ev = r.ev → r' = r

end World

/-- A run of the callers and the event loop. -/
abbrev XAppRun (actions : List XAppAction) (w : World) : Prop :=
  Run.Reach (fun a w w' => w.Allowed a ∧ w.step a = some w') (· = World.init) actions w

/-- A run in which no other request of the kind waits when one is answered. -/
abbrev OrderlyRun (actions : List XAppAction) (w : World) : Prop :=
  Run.Reach (fun a w w' => w.Allowed a ∧ w.OwnEventAlone a ∧ w.step a = some w')
    (· = World.init) actions w

/-- In every run the map holds one pair for each unanswered request, and every step that can follow
is handled. -/
def PendingKept : Prop :=
  ∀ actions w, XAppRun actions w → w.Exact ∧ ∀ a, w.Allowed a → w.Handles a

/-! ### The invariant -/

namespace World

def Issued (w : World) (id : RicGenId) : Prop := w.issued[id.ricReqId]? = some id

/-- The invariant of the orderly runs. -/
structure Inv (w : World) : Prop where
  exact : w.Exact
  keyId : w.issued.length = w.xapp.keyId
  registered : ∀ id ∈ w.xapp.actProc, w.Issued id
  toSend : ∀ id ∈ w.toSend, w.Issued id
  toAdd : ∀ id ∈ w.toAdd, w.Issued id
  sent : ∀ r ∈ w.sent, w.Issued r.id

theorem inv_init : init.Inv where
  exact := PendingMap.exact_empty
  keyId := rfl
  registered := fun _ h => (List.not_mem_nil h).elim
  toSend := fun _ h => (List.not_mem_nil h).elim
  toAdd := fun _ h => (List.not_mem_nil h).elim
  sent := fun _ h => (List.not_mem_nil h).elim

section Steps

variable {w : World} {id : RicGenId} {fdTimer ricReqId : ℕ} {r : PendingRequest}

theorem Issued.inj {id' : RicGenId} (h : w.Issued id) (h' : w.Issued id')
    (heq : id.ricReqId = id'.ricReqId) : id = id' := by
  rw [Issued, heq, h'] at h
  exact (Option.some.inj h).symm

/-- The registry is searched by number, which names one issued id. -/
theorem Inv.findActProc_iff (h : w.Inv) (hid : w.Issued id) :
    (∃ id', w.xapp.findActProc id.ricReqId = some id') ↔ id ∈ w.xapp.actProc := by
  rw [← Option.isSome_iff_exists, XApp.findActProc, List.find?_isSome]
  constructor
  · rintro ⟨id', hmem, heq⟩
    rwa [hid.inj (h.registered id' hmem) (by simpa using (of_decide_eq_true heq).symm)]
  · intro hmem
    exact ⟨id, hmem, by simp⟩

theorem Inv.findActProc_eq (h : w.Inv) (hid : w.Issued id) {id' : RicGenId}
    (hfind : w.xapp.findActProc id.ricReqId = some id') : id' = id := by
  have hmem := List.mem_of_find?_eq_some hfind
  have heq := List.find?_some hfind
  exact (h.registered id' hmem).inj hid (by simpa using heq)

theorem NewTimer.add (hfd : w.NewTimer fdTimer) (h : w.Exact) (s : XApp)
    (ev : PendingEventXapp) (hs : s.pending = w.xapp.pending) (hwait : 0 < ev.waitMs) :
    ∃ m, s.addPendingEventXapp fdTimer ev = some { s with pending := m } ∧
      m.Exact (ev.request :: w.unanswered) := by
  obtain ⟨m, hadd, hexact⟩ := PendingMap.Exact.add h ev hfd.1 hfd.2
  refine ⟨m, ?_, hexact⟩
  rw [XApp.addPendingEventXapp, if_pos hwait, hs, hadd]
  rfl

theorem getElem?_issued {issued : List RicGenId} {k : ℕ} {new : RicGenId}
    (h : issued[k]? = some id) : (issued ++ [new])[k]? = some id := by
  obtain ⟨hk, -⟩ := List.getElem?_eq_some_iff.mp h
  rw [List.getElem?_append_left hk, h]

theorem Inv.report (h : w.Inv) {ranFuncId : ℕ} (hallowed : w.Allowed (.report ranFuncId fdTimer)) :
    ∃ w', w.step (.report ranFuncId fdTimer) = some w' ∧ w'.Inv := by
  obtain ⟨hfd, hkey⟩ := hallowed
  have hnew : (w.issued ++ [⟨w.xapp.keyId, 0, ranFuncId⟩])[w.xapp.keyId]? =
      some ⟨w.xapp.keyId, 0, ranFuncId⟩ := by
    rw [← h.keyId, List.getElem?_concat_length]
  obtain ⟨m, hadd, hexact⟩ := hfd.add h.exact
    { w.xapp with
      keyId := w.xapp.keyId + 1
      actProc := w.xapp.actProc ++ [⟨w.xapp.keyId, 0, ranFuncId⟩] }
    ⟨.e42RicSubscriptionRequest, ⟨w.xapp.keyId, 0, ranFuncId⟩, 5000⟩ rfl (by simp)
  simp only [step, XApp.generateRicGenId, if_pos hkey, XApp.handleSubscriptionRequest, hadd,
    Option.map_some]
  refine ⟨_, rfl, hexact, ?_, ?_, ?_, ?_, ?_⟩
  · simp [h.keyId]
  · intro id hid
    rcases List.mem_append.mp hid with hid | hid
    · exact getElem?_issued (h.registered id hid)
    · obtain rfl := List.mem_singleton.mp hid
      exact hnew
  · intro id hid
    rcases List.mem_cons.mp hid with rfl | hid
    · exact hnew
    · exact getElem?_issued (h.toSend id hid)
  · exact fun id hid => getElem?_issued (h.toAdd id hid)
  · exact fun r hr => getElem?_issued (h.sent r hr)

theorem Inv.sendReport (h : w.Inv) (hallowed : w.Allowed (.sendReport id)) :
    ∃ w', w.step (.sendReport id) = some w' ∧ w'.Inv := by
  refine ⟨_, rfl, h.exact, h.keyId, h.registered, ?_, h.toAdd, ?_⟩
  · exact fun id' hid' => h.toSend id' (List.mem_of_mem_erase hid')
  · intro r hr
    rcases List.mem_cons.mp hr with rfl | hr
    · exact h.toSend id hallowed
    · exact h.sent r hr

theorem Inv.rmReport (h : w.Inv) (hallowed : w.Allowed (.rmReport ricReqId)) :
    ∃ w', w.step (.rmReport ricReqId) = some w' ∧ w'.Inv := by
  obtain ⟨id, hfind⟩ := Option.isSome_iff_exists.mp hallowed
  have hid : w.Issued id := h.registered id (List.mem_of_find?_eq_some hfind)
  simp only [step, hfind]
  refine ⟨_, rfl, h.exact, h.keyId, h.registered, h.toSend, ?_, ?_⟩
  · intro id' hid'
    rcases List.mem_cons.mp hid' with rfl | hid'
    · exact hid
    · exact h.toAdd id' hid'
  · intro r hr
    rcases List.mem_cons.mp hr with rfl | hr
    · exact hid
    · exact h.sent r hr

theorem Inv.addDelete (h : w.Inv) (hallowed : w.Allowed (.addDelete id fdTimer)) :
    ∃ w', w.step (.addDelete id fdTimer) = some w' ∧ w'.Inv := by
  obtain ⟨hid, hfd⟩ := hallowed
  obtain ⟨m, hadd, hexact⟩ := hfd.add h.exact w.xapp
    ⟨.e42RicSubscriptionDeleteRequest, id, 10000⟩ rfl (by simp)
  simp only [step, XApp.handleSubscriptionDeleteRequest, hadd, Option.map_some]
  refine ⟨_, rfl, hexact, h.keyId, h.registered, h.toSend, ?_, h.sent⟩
  exact fun id' hid' => h.toAdd id' (List.mem_of_mem_erase hid')

theorem Inv.rmActProc (h : w.Inv) (hallowed : w.Allowed (.rmActProc ricReqId)) :
    ∃ w', w.step (.rmActProc ricReqId) = some w' ∧ w'.Inv := by
  obtain ⟨id, hfind⟩ := Option.isSome_iff_exists.mp hallowed
  simp only [step, XApp.rmActProc, hfind, Option.map_some]
  refine ⟨_, rfl, h.exact, h.keyId, ?_, h.toSend, h.toAdd, h.sent⟩
  exact fun id' hid' => h.registered id' (List.mem_filter.mp hid').1

theorem Inv.respond (h : w.Inv) (hsent : r ∈ w.sent) (hreg : r.id ∈ w.xapp.actProc)
    (hown : w.xapp.pending.FindsOwn r) :
    ∃ w', w.respond r (XApp.handleResponse r.ev) = some w' ∧ w'.Inv := by
  have hid : w.Issued r.id := h.sent r hsent
  obtain ⟨id, hfind⟩ := (h.findActProc_iff hid).mpr hreg
  obtain rfl := h.findActProc_eq hid hfind
  obtain ⟨fd, m, hrm, hexact⟩ := PendingMap.Exact.rm h.exact hown
  simp only [World.respond, XApp.handleResponse, hfind, XApp.rmPendingEventXapp, hrm,
    Option.map_some]
  refine ⟨_, rfl, hexact, h.keyId, h.registered, h.toSend, h.toAdd, ?_⟩
  exact fun r' hr' => h.sent r' (List.mem_of_mem_erase hr')

theorem Inv.registered_of_respond (h : w.Inv) (hsent : r ∈ w.sent) {w' : World}
    (hrespond : w.respond r (XApp.handleResponse r.ev) = some w') : r.id ∈ w.xapp.actProc := by
  have hid : w.Issued r.id := h.sent r hsent
  rw [← h.findActProc_iff hid]
  rcases hfind : w.xapp.findActProc r.id.ricReqId with _ | id
  · simp [World.respond, XApp.handleResponse, hfind] at hrespond
  · exact ⟨id, rfl⟩

theorem step_of_answered {a : XAppAction} (ha : r ∈ answered a) :
    w.step a = w.respond r (XApp.handleResponse r.ev) ∧ (w.Allowed a ↔ r ∈ w.sent) := by
  cases a with
  | subscriptionResponse id =>
    obtain rfl := Option.mem_some_iff.mp ha
    exact ⟨rfl, Iff.rfl⟩
  | subscriptionDeleteResponse id =>
    obtain rfl := Option.mem_some_iff.mp ha
    exact ⟨rfl, Iff.rfl⟩
  | _ => cases ha

/-- An allowed step keeps the invariant, if a request that it answers waits alone. -/
theorem Inv.step (h : w.Inv) {a : XAppAction} (hallowed : w.Allowed a) (hown : w.OwnEventAlone a) :
    ∃ w', w.step a = some w' ∧ w'.Inv := by
  cases a with
  | report ranFuncId fdTimer => exact h.report hallowed
  | sendReport id => exact h.sendReport hallowed
  | rmReport ricReqId => exact h.rmReport hallowed
  | addDelete id fdTimer => exact h.addDelete hallowed
  | rmActProc ricReqId => exact h.rmActProc hallowed
  | subscriptionResponse id =>
    obtain ⟨hreg, hwaits, halone⟩ := hown _ rfl
    exact h.respond hallowed hreg (PendingMap.Exact.findsOwn h.exact hwaits halone)
  | subscriptionDeleteResponse id =>
    obtain ⟨hreg, hwaits, halone⟩ := hown _ rfl
    exact h.respond hallowed hreg (PendingMap.Exact.findsOwn h.exact hwaits halone)

/-- The response to a request that waits alone is handled. -/
theorem Inv.handles (h : w.Inv) {a : XAppAction} (hallowed : w.Allowed a)
    (hown : w.OwnEventAlone a) : w.Handles a := by
  obtain ⟨w', hstep, hinv⟩ := h.step hallowed hown
  refine ⟨⟨w', hstep, hinv.exact⟩, fun r hr => ?_⟩
  obtain ⟨-, hwaits, halone⟩ := hown r hr
  apply (PendingMap.Exact.removesOwn_iff h.exact).mpr
  exact PendingMap.Exact.findsOwn h.exact hwaits halone

/-- A response that is handled has a registered procedure, and finds its own event. -/
theorem Inv.findsOwn_of_handles (h : w.Inv) {a : XAppAction} (hallowed : w.Allowed a)
    (hhandles : w.Handles a) (hr : r ∈ answered a) :
    r.id ∈ w.xapp.actProc ∧ w.xapp.pending.FindsOwn r := by
  obtain ⟨⟨w', hstep, -⟩, hremoves⟩ := hhandles
  obtain ⟨heq, hsent⟩ := step_of_answered (w := w) hr
  refine ⟨h.registered_of_respond (hsent.mp hallowed) (heq.symm.trans hstep), ?_⟩
  exact (PendingMap.Exact.removesOwn_iff h.exact).mp (hremoves r hr)

end Steps

end World

/-- The invariant holds all along an orderly run. -/
theorem OrderlyRun.inv {actions : List XAppAction} {w : World} (h : OrderlyRun actions w) :
    w.Inv := by
  refine h.invariant ?_ ?_
  · rintro _ rfl
    exact World.inv_init
  · rintro a w w' hinv ⟨hallowed, hown, hstep⟩
    obtain ⟨w'', hstep', hinv'⟩ := hinv.step hallowed hown
    obtain rfl := Option.some.inj (hstep'.symm.trans hstep)
    exact hinv'

/-- In a run in which every request that is answered waits alone, the map holds one pair for each
unanswered request, and every step that can follow is handled right, if a request that it answers
waits alone. No step is handled right that answers a request whose procedure is not registered or
whose event is not there, and no two steps that answer different requests of one kind. -/
theorem pendingKept_of_run (actions : List XAppAction) (w : World) (hrun : OrderlyRun actions w) :
    w.Exact ∧ ∀ a, w.Allowed a → (w.OwnEventAlone a → w.Handles a) ∧
      (w.Handles a → ∀ r ∈ World.answered a, r.id ∈ w.xapp.actProc ∧ r ∈ w.unanswered ∧
        ∀ b, w.Allowed b → w.Handles b → ∀ r' ∈ World.answered b, r'.ev = r.ev → r' = r) := by
  have hinv := hrun.inv
  refine ⟨hinv.exact, fun a hallowed => ⟨hinv.handles hallowed, fun hhandles r hr => ?_⟩⟩
  obtain ⟨hreg, hfinds⟩ := hinv.findsOwn_of_handles hallowed hhandles hr
  refine ⟨hreg, PendingMap.Exact.mem_of_findsOwn hinv.exact hfinds, ?_⟩
  intro b hallowed' hhandles' r' hr' hev
  exact hfinds.unique (hinv.findsOwn_of_handles hallowed' hhandles' hr').2 hev

namespace World

/-- A report of RAN function 2 has been requested and sent, with timer 5. -/
def oneReport : World where
  xapp :=
    { keyId := 1
      actProc := [⟨0, 0, 2⟩]
      pending := BiMap.insert cmpFd cmpPendingEvent BiMap.empty 5
        ⟨.e42RicSubscriptionRequest, ⟨0, 0, 2⟩, 5000⟩ }
  issued := [⟨0, 0, 2⟩]
  toSend := []
  toAdd := []
  sent := [subscription ⟨0, 0, 2⟩]
  unanswered := [subscription ⟨0, 0, 2⟩]

/-- A second report has been requested and sent, with timer 6. -/
def twoReports : World where
  xapp :=
    { keyId := 2
      actProc := [⟨0, 0, 2⟩, ⟨1, 0, 2⟩]
      pending := BiMap.insert cmpFd cmpPendingEvent oneReport.xapp.pending 6
        ⟨.e42RicSubscriptionRequest, ⟨1, 0, 2⟩, 5000⟩ }
  issued := [⟨0, 0, 2⟩, ⟨1, 0, 2⟩]
  toSend := []
  toAdd := []
  sent := [subscription ⟨1, 0, 2⟩, subscription ⟨0, 0, 2⟩]
  unanswered := [subscription ⟨1, 0, 2⟩, subscription ⟨0, 0, 2⟩]

end World

theorem orderlyRun_oneReport : OrderlyRun ([.report 2 5] ++ [.sendReport ⟨0, 0, 2⟩])
    World.oneReport := by
  refine Run.Reach.step (s := { World.oneReport with toSend := [⟨0, 0, 2⟩], sent := [] }) ?_ ?_
  · refine Run.Reach.first rfl ⟨⟨⟨by decide, ?_⟩, by decide⟩, fun _ h => ?_, rfl⟩
    · exact fun _ he => (List.not_mem_nil he).elim
    · cases h
  · refine ⟨List.mem_singleton.mpr rfl, fun _ h => ?_, rfl⟩
    cases h

/-- The response to the only report is handled. -/
theorem handles_oneReport : World.oneReport.Handles (.subscriptionResponse ⟨0, 0, 2⟩) := by
  refine ((pendingKept_of_run _ _ orderlyRun_oneReport).2 _ (List.mem_singleton.mpr rfl)).1 ?_
  intro r hr
  obtain rfl := Option.mem_some_iff.mp hr
  exact ⟨List.mem_singleton.mpr rfl, List.mem_singleton.mpr rfl,
    fun r' hr' _ => List.mem_singleton.mp hr'⟩

theorem xAppRun_twoReports :
    XAppRun ([.report 2 5] ++ [.sendReport ⟨0, 0, 2⟩] ++ [.report 2 6] ++ [.sendReport ⟨1, 0, 2⟩])
      World.twoReports := by
  have hone : XAppRun ([.report 2 5] ++ [.sendReport ⟨0, 0, 2⟩]) World.oneReport :=
    orderlyRun_oneReport.mono fun _ _ _ h => ⟨h.1, h.2.2⟩
  refine Run.Reach.step (s := { World.twoReports with
    toSend := [⟨1, 0, 2⟩], sent := [World.subscription ⟨0, 0, 2⟩] }) ?_ ?_
  · refine hone.step ⟨⟨⟨by decide, by decide⟩, by decide⟩, rfl⟩
  · exact ⟨List.mem_singleton.mpr rfl, rfl⟩

/-- With two reports under way, the response to the second one removes the timer of the first. -/
theorem not_pendingKept : ¬ PendingKept := by
  intro hkept
  obtain ⟨-, hhandles⟩ := hkept _ _ xAppRun_twoReports
  obtain ⟨-, hremoves⟩ :=
    hhandles (.subscriptionResponse ⟨1, 0, 2⟩) (List.mem_cons_self)
  obtain ⟨fd, ev, m', hrm, hreq, hperm⟩ := hremoves _ rfl
  -- the search stops at the event of the first report
  have hfirst : ∃ m', World.twoReports.xapp.pending.rmPendingEventEv
      ⟨.e42RicSubscriptionRequest, ⟨1, 0, 2⟩, 0⟩ = some (5, m') := ⟨_, rfl⟩
  obtain ⟨m'', hrm'⟩ := hfirst
  obtain ⟨rfl, -⟩ := Prod.mk.inj (Option.some.inj (hrm'.symm.trans hrm))
  have hmem : (5, ev) ∈ World.twoReports.xapp.pending.left.entries :=
    hperm.mem_iff.mpr List.mem_cons_self
  have hall : ∀ e ∈ World.twoReports.xapp.pending.left.entries, e.1 = 5 →
      e.2.request ≠ World.subscription ⟨1, 0, 2⟩ := by decide
  exact hall _ hmem rfl hreq

end LlmHric.Flexric
