import LlmHric.Flexric.Bimap
import LlmHric.Flexric.Ids
import LlmHric.Library.Run
import Mathlib.Data.List.Nodup

/-! The agent keeps one indication event per RIC subscription in a two-way map from file descriptors
to events. A periodic subscription is stored under the descriptor of its timer, and every aperiodic
one under descriptor 0. Deleting a subscription extracts its event from the right tree and the
descriptor it finds there from the left tree. -/

namespace LlmHric.Flexric

/-- `subscription_ans_e`: how a service model answers a subscription. -/
inductive SubscriptionAns
  | periodic
  | aperiodic
  deriving DecidableEq

/-- An indication event. -/
structure IndEvent where
  ricId : RicGenId
  actionId : ℕ
  type : SubscriptionAns
  deriving DecidableEq

/-- `cmp_ind_event`: only the request ids are compared. -/
def cmpIndEvent (a b : IndEvent) : Ordering := cmpRicGenId a.ricId b.ricId

instance : Std.TransCmp cmpIndEvent := transCmp_on cmpRicGenId IndEvent.ricId

@[simp] theorem cmpIndEvent_eq_iff {a b : IndEvent} : cmpIndEvent a b = .eq ↔ a.ricId = b.ricId :=
  cmpRicGenId_eq_iff

/-- The map `ind_event` of the agent. -/
abbrev IndEventMap := BiMap ℕ IndEvent

namespace IndEventMap

/-- The map is well formed for the comparisons it is initialised with. -/
abbrev WellFormed (m : IndEventMap) : Prop := BiMap.WellFormed cmpFd cmpIndEvent m

/-- The descriptor an event is stored under, given the descriptor of its timer. -/
def storeFd (fdTimer : ℕ) : SubscriptionAns → ℕ
  | .periodic => fdTimer
  | .aperiodic => 0

/-- The store part of `e2ap_handle_subscription_request_agent`. -/
def subscribe (m : IndEventMap) (fdTimer : ℕ) (ev : IndEvent) : IndEventMap :=
  BiMap.insert cmpFd cmpIndEvent m (storeFd fdTimer ev.type) ev

/-- `stop_ind_event`: the descriptor that is closed, if any, and the map after the call. An id
that is not stored changes nothing. -/
def stopIndEvent (m : IndEventMap) (id : RicGenId) : Option (Option ℕ × IndEventMap) :=
  match m.right.findIf fun ev => eqRicGenId id ev.ricId with
  | none => some (none, m)
  | some _ =>
    -- the probe's other fields are not compared
    match BiMap.extractRight cmpFd cmpIndEvent m ⟨id, 0, .periodic⟩ with
    | none => none
    | some (fd, m') => some (if fd ≠ 0 then some fd else none, m')

/-- A request of the RIC. -/
inductive Request
  | subscription (fdTimer : ℕ) (ev : IndEvent)
  | delete (id : RicGenId)

/-- One request. The id of a new subscription is not stored, and the descriptor of a new timer is
positive and not in use. -/
inductive AgentStep : Request → IndEventMap → IndEventMap → Prop
  | subscription {m : IndEventMap} {fdTimer : ℕ} {ev : IndEvent} :
      (∀ e ∈ m.left.entries, e.2.ricId ≠ ev.ricId) →
      (ev.type = .periodic → fdTimer ≠ 0 ∧ ∀ e ∈ m.left.entries, e.1 ≠ fdTimer) →
      AgentStep (.subscription fdTimer ev) m (m.subscribe fdTimer ev)
  | delete {m m' : IndEventMap} {id : RicGenId} {closed : Option ℕ} :
      m.stopIndEvent id = some (closed, m') → AgentStep (.delete id) m m'

/-- A run of the agent from an empty store. -/
abbrev AgentRun (requests : List Request) (m : IndEventMap) : Prop :=
  Run.Reach AgentStep (· = BiMap.empty) requests m

/-- The invariant of the store. -/
structure StoreInv (m : IndEventMap) : Prop where
  wellFormed : m.WellFormed
  nodup : (m.left.entries.map (·.2.ricId)).Nodup
  zero_iff : ∀ e ∈ m.left.entries, e.1 = 0 ↔ e.2.type = .aperiodic
  timer_unique : ∀ a ∈ m.left.entries, ∀ b ∈ m.left.entries, a.1 = b.1 → a.1 ≠ 0 → a = b

/-- Deleting an id leaves exactly the other pairs in both trees, and closes a descriptor only if
it is the timer of a periodic subscription with that id. -/
def RemovesExactly (m : IndEventMap) (id : RicGenId) : Prop :=
  ∃ closed m', m.stopIndEvent id = some (closed, m') ∧
    m'.left.entries.Perm (m.left.entries.filter fun e => e.2.ricId ≠ id) ∧
    m'.right.entries.Perm (m.right.entries.filter fun e => e.1.ricId ≠ id) ∧
    ∀ fd, closed = some fd ↔
      ∃ ev, (fd, ev) ∈ m.left.entries ∧ ev.ricId = id ∧ ev.type = .periodic

/-- If the id belongs to an aperiodic subscription, a search of the left tree for descriptor 0
meets this subscription first. -/
def TopmostAperiodic (m : IndEventMap) (id : RicGenId) : Prop :=
  ∀ ev, (0, ev) ∈ m.left.entries → ev.ricId = id → m.left.lookup cmpFd 0 = some (0, ev)

/-! ### The invariant along a run -/

section Store

variable {m : IndEventMap} {id : RicGenId} {fd : ℕ} {ev : IndEvent}

theorem StoreInv.pair_unique (h : StoreInv m) {a b : ℕ × IndEvent} (ha : a ∈ m.left.entries)
    (hb : b ∈ m.left.entries) (hab : a.2.ricId = b.2.ricId) : a = b :=
  List.inj_on_of_nodup_map h.nodup ha hb hab

/-- The search of the right tree for an id stops at its event. -/
theorem StoreInv.lookup_right (h : StoreInv m) (hmem : (fd, ev) ∈ m.left.entries)
    (hid : ev.ricId = id) : m.right.lookup cmpIndEvent ⟨id, 0, .periodic⟩ = some (ev, fd) := by
  have hright : (ev, fd) ∈ m.right.entries := h.wellFormed.mem_iff.mpr hmem
  have hprobe : cmpIndEvent ⟨id, 0, .periodic⟩ ev = .eq := cmpIndEvent_eq_iff.mpr hid.symm
  obtain ⟨⟨ev', fd'⟩, hlookup⟩ := h.wellFormed.right.lookup_isSome hright hprobe
  obtain ⟨hmem', hcmp⟩ := AssocTree.lookup_mem hlookup
  have hid' : ev'.ricId = id := (cmpIndEvent_eq_iff.mp hcmp).symm
  have hpair := h.pair_unique (h.wellFormed.mem_iff.mp hmem') hmem (hid'.trans hid.symm)
  obtain ⟨rfl, rfl⟩ := Prod.mk.inj hpair
  exact hlookup

/-- The search of the left tree for a stored descriptor stops at some pair with it. -/
theorem StoreInv.lookup_left (h : StoreInv m) (hmem : (fd, ev) ∈ m.left.entries) :
    ∃ ev', m.left.lookup cmpFd fd = some (fd, ev') ∧ (fd, ev') ∈ m.left.entries := by
  obtain ⟨⟨fd', ev'⟩, hlookup⟩ := h.wellFormed.left.lookup_isSome hmem (cmpFd_eq_iff.mpr rfl)
  obtain ⟨hmem', hcmp⟩ := AssocTree.lookup_mem hlookup
  obtain rfl := cmpFd_eq_iff.mp hcmp
  exact ⟨ev', hlookup, hmem'⟩

theorem StoreInv.findIf_stored (h : StoreInv m) (hmem : (fd, ev) ∈ m.left.entries)
    (hid : ev.ricId = id) : ∃ e, m.right.findIf (fun ev => eqRicGenId id ev.ricId) = some e := by
  rw [← Option.isSome_iff_exists, AssocTree.findIf, List.find?_isSome]
  exact ⟨(ev, fd), h.wellFormed.mem_iff.mpr hmem, by simp [hid]⟩

theorem StoreInv.stop_absent (h : StoreInv m) (hid : ∀ e ∈ m.left.entries, e.2.ricId ≠ id) :
    m.stopIndEvent id = some (none, m) := by
  have hnone : m.right.findIf (fun ev => eqRicGenId id ev.ricId) = none := by
    rw [AssocTree.findIf, List.find?_eq_none]
    intro e he heq
    exact hid (e.2, e.1) (h.wellFormed.mem_iff.mp he) (eqRicGenId_iff.mp heq).symm
  rw [stopIndEvent, hnone]

/-- A deletion whose search of the left tree stops at the pair itself takes this pair out of both
trees. -/
theorem StoreInv.stop_of_lookup (h : StoreInv m) (hmem : (fd, ev) ∈ m.left.entries)
    (hid : ev.ricId = id) (hlookup : m.left.lookup cmpFd fd = some (fd, ev)) :
    ∃ m', m.stopIndEvent id = some (if fd ≠ 0 then some fd else none, m') ∧ m'.WellFormed ∧
      m'.left.entries = m.left.entries.filter (fun e => e.2.ricId ≠ id) ∧
      m'.right.entries = m.right.entries.filter fun e => e.1.ricId ≠ id := by
  obtain ⟨m', hextract, hlwf, hrwf, hl, hr⟩ := BiMap.extractRight_of_lookup h.wellFormed
    (h.lookup_right hmem hid) hlookup (cmpIndEvent_eq_iff.mpr hid.symm)
  obtain ⟨e, he⟩ := h.findIf_stored hmem hid
  refine ⟨m', ?_, h.wellFormed.of_extract hlwf hrwf hl hr, ?_, ?_⟩
  · rw [stopIndEvent, he]
    simp only [hextract]
  · obtain ⟨pre, post, hent, hent'⟩ := hl
    have hnodup := h.nodup
    rw [hent] at hnodup
    rw [hent', hent, ← hid]
    exact (filter_ne_of_split (f := fun e : ℕ × IndEvent => e.2.ricId) hnodup).symm
  · obtain ⟨pre, post, hent, hent'⟩ := hr
    have hnodup : (m.right.entries.map (·.1.ricId)).Nodup := by
      rw [(h.wellFormed.perm.map _).nodup_iff, List.map_map]
      exact h.nodup
    rw [hent] at hnodup
    rw [hent', hent, ← hid]
    exact (filter_ne_of_split (f := fun e : IndEvent × ℕ => e.1.ricId) hnodup).symm

/-- A deletion whose search of the left tree stops at another pair fails its assertion. -/
theorem StoreInv.stop_eq_none (h : StoreInv m) (hmem : (fd, ev) ∈ m.left.entries)
    (hid : ev.ricId = id) (hlookup : m.left.lookup cmpFd fd ≠ some (fd, ev)) :
    m.stopIndEvent id = none := by
  obtain ⟨ev', hlookup', hmem'⟩ := h.lookup_left hmem
  -- the pair found belongs to another id, so the comparison with the probe fails
  have hne : cmpIndEvent ⟨id, 0, .periodic⟩ ev' ≠ .eq := by
    intro heq
    have hid' : ev'.ricId = id := (cmpIndEvent_eq_iff.mp heq).symm
    exact hlookup (h.pair_unique hmem' hmem (hid'.trans hid.symm) ▸ hlookup')
  obtain ⟨e, he⟩ := h.findIf_stored hmem hid
  rw [stopIndEvent, he]
  simp only [BiMap.extractRight_eq_none h.wellFormed (h.lookup_right hmem hid) hlookup' hne]

/-- Between a deletion that succeeds and the pair it deletes lies a search that stopped there. -/
theorem StoreInv.lookup_of_stop (h : StoreInv m) {closed : Option ℕ} {m' : IndEventMap}
    (hstop : m.stopIndEvent id = some (closed, m')) (hmem : (fd, ev) ∈ m.left.entries)
    (hid : ev.ricId = id) : m.left.lookup cmpFd fd = some (fd, ev) := by
  by_contra hlookup
  rw [h.stop_eq_none hmem hid hlookup] at hstop
  cases hstop

theorem StoreInv.subscribe (h : StoreInv m) {fdTimer : ℕ}
    (hid : ∀ e ∈ m.left.entries, e.2.ricId ≠ ev.ricId)
    (hfd : ev.type = .periodic → fdTimer ≠ 0 ∧ ∀ e ∈ m.left.entries, e.1 ≠ fdTimer) :
    StoreInv (m.subscribe fdTimer ev) := by
  have hperm : (m.subscribe fdTimer ev).left.entries.Perm
      ((storeFd fdTimer ev.type, ev) :: m.left.entries) :=
    AssocTree.perm_insert h.wellFormed.left _ _
  refine ⟨h.wellFormed.insert _ _, ?_, ?_, ?_⟩
  · rw [(hperm.map _).nodup_iff, List.map_cons, List.nodup_cons, List.mem_map]
    exact ⟨fun ⟨e, he, heq⟩ => hid e he heq, h.nodup⟩
  · intro e he
    rcases List.mem_cons.mp (hperm.mem_iff.mp he) with rfl | he
    · cases htype : ev.type with
      | periodic => simp [storeFd, (hfd htype).1]
      | aperiodic => simp [storeFd]
    · exact h.zero_iff e he
  · -- a new positive descriptor is not in use, so two equal ones are both old or both new
    have hfresh : storeFd fdTimer ev.type ≠ 0 →
        ∀ e ∈ m.left.entries, e.1 ≠ storeFd fdTimer ev.type := by
      intro hne
      cases htype : ev.type with
      | periodic => exact (hfd htype).2
      | aperiodic => simp [htype, storeFd] at hne
    intro a ha b hb hab hne
    rcases List.mem_cons.mp (hperm.mem_iff.mp ha) with rfl | ha
    · rcases List.mem_cons.mp (hperm.mem_iff.mp hb) with rfl | hb
      · rfl
      · exact absurd hab.symm (hfresh hne b hb)
    · rcases List.mem_cons.mp (hperm.mem_iff.mp hb) with rfl | hb
      · exact absurd hab (hfresh (fun hzero => hne (hab.trans hzero)) a ha)
      · exact h.timer_unique a ha b hb hab hne

theorem StoreInv.of_filter (h : StoreInv m) {m' : IndEventMap} (hwf : m'.WellFormed)
    (hent : m'.left.entries = m.left.entries.filter fun e => e.2.ricId ≠ id) : StoreInv m' := by
  have hsub : m'.left.entries.Sublist m.left.entries := hent ▸ List.filter_sublist
  exact ⟨hwf, h.nodup.sublist (hsub.map _), fun e he => h.zero_iff e (hsub.subset he),
    fun a ha b hb => h.timer_unique a (hsub.subset ha) b (hsub.subset hb)⟩

theorem StoreInv.stop (h : StoreInv m) {closed : Option ℕ} {m' : IndEventMap}
    (hstop : m.stopIndEvent id = some (closed, m')) : StoreInv m' := by
  by_cases hstored : ∃ e ∈ m.left.entries, e.2.ricId = id
  · obtain ⟨⟨fd, ev⟩, hmem, hid⟩ := hstored
    have hlookup := h.lookup_of_stop hstop hmem hid
    obtain ⟨m'', hstop', hwf, hent, -⟩ := h.stop_of_lookup hmem hid hlookup
    obtain ⟨-, rfl⟩ := Prod.mk.inj (Option.some.inj (hstop'.symm.trans hstop))
    exact h.of_filter hwf hent
  · push Not at hstored
    rw [h.stop_absent hstored] at hstop
    obtain ⟨-, rfl⟩ := Prod.mk.inj (Option.some.inj hstop)
    exact h

theorem storeInv_empty : StoreInv BiMap.empty :=
  ⟨BiMap.wellFormed_empty, .nil, fun _ he => (List.not_mem_nil he).elim,
    fun _ ha => (List.not_mem_nil ha).elim⟩

/-- The invariant holds in every store that a run of the agent reaches. -/
theorem AgentRun.storeInv {requests : List Request} (h : AgentRun requests m) : StoreInv m := by
  refine h.invariant ?_ ?_
  · rintro _ rfl
    exact storeInv_empty
  · intro a s t hs hstep
    cases hstep with
    | subscription hid hfd => exact hs.subscribe hid hfd
    | delete hstop => exact hs.stop hstop

/-! ### When a deletion is right -/

theorem StoreInv.removesExactly_of_lookup (h : StoreInv m) (hmem : (fd, ev) ∈ m.left.entries)
    (hid : ev.ricId = id) (hlookup : m.left.lookup cmpFd fd = some (fd, ev)) :
    m.RemovesExactly id := by
  obtain ⟨m', hstop, -, hleft, hright⟩ := h.stop_of_lookup hmem hid hlookup
  refine ⟨_, m', hstop, hleft ▸ .refl _, hright ▸ .refl _, ?_⟩
  intro fd'
  constructor
  · intro hclosed
    split_ifs at hclosed with hne
    obtain rfl := Option.some.inj hclosed
    refine ⟨ev, hmem, hid, ?_⟩
    cases htype : ev.type with
    | periodic => rfl
    | aperiodic => exact absurd ((h.zero_iff _ hmem).mpr htype) hne
  · rintro ⟨ev', hmem', hid', htype⟩
    obtain ⟨rfl, rfl⟩ := Prod.mk.inj (h.pair_unique hmem' hmem (hid'.trans hid.symm))
    have hne : fd' ≠ 0 := by
      intro hzero
      rw [(h.zero_iff _ hmem).mp hzero] at htype
      cases htype
    rw [if_pos hne]

/-- The deletion of an id that is not stored removes nothing and closes nothing. -/
theorem StoreInv.removesExactly_absent (h : StoreInv m)
    (hid : ∀ e ∈ m.left.entries, e.2.ricId ≠ id) : m.RemovesExactly id := by
  refine ⟨none, m, h.stop_absent hid, ?_, ?_, ?_⟩
  · rw [List.filter_eq_self.mpr fun e he => by simpa using hid e he]
  · rw [List.filter_eq_self.mpr fun e he => by
      simpa using hid (e.2, e.1) (h.wellFormed.mem_iff.mp he)]
  · intro fd
    constructor
    · intro hclosed
      cases hclosed
    · rintro ⟨ev, hmem, heq, -⟩
      exact absurd heq (hid _ hmem)

end Store

/-- In every store a run reaches, a deletion is right exactly when the search for descriptor 0 does
not meet another aperiodic subscription first. -/
theorem removesExactly_iff (requests : List Request) (m : IndEventMap) (id : RicGenId)
    (hrun : AgentRun requests m) : m.RemovesExactly id ↔ m.TopmostAperiodic id := by
  have h := hrun.storeInv
  constructor
  · rintro ⟨closed, m', hstop, -⟩ ev hmem hid
    exact h.lookup_of_stop hstop hmem hid
  · intro htop
    by_cases hstored : ∃ e ∈ m.left.entries, e.2.ricId = id
    · obtain ⟨⟨fd, ev⟩, hmem, hid⟩ := hstored
      obtain ⟨ev', hlookup, hmem'⟩ := h.lookup_left hmem
      by_cases hfd : fd = 0
      · -- all aperiodic subscriptions share descriptor 0, so the condition is needed
        subst hfd
        exact h.removesExactly_of_lookup hmem hid (htop ev hmem hid)
      · -- the descriptor of a timer belongs to one subscription only
        obtain ⟨-, rfl⟩ := Prod.mk.inj (h.timer_unique _ hmem' _ hmem rfl hfd)
        exact h.removesExactly_of_lookup hmem hid hlookup
    · push Not at hstored
      exact h.removesExactly_absent hstored

/-- An aperiodic subscription with the given request id. -/
def aperiodicEvent (ricReqId : ℕ) : IndEvent := ⟨⟨ricReqId, 0, 3⟩, 0, .aperiodic⟩

/-- A store with one aperiodic subscription. -/
def oneAperiodic : IndEventMap := IndEventMap.subscribe BiMap.empty 0 (aperiodicEvent 1)

/-- A store with two aperiodic subscriptions. -/
def twoAperiodic : IndEventMap := oneAperiodic.subscribe 0 (aperiodicEvent 2)

theorem agentRun_oneAperiodic : AgentRun [.subscription 0 (aperiodicEvent 1)] oneAperiodic := by
  refine Run.Reach.first rfl (AgentStep.subscription ?_ ?_)
  · intro e he
    cases he
  · intro htype
    cases htype

/-- A store with one aperiodic subscription deletes it. -/
theorem removesExactly_oneAperiodic : oneAperiodic.RemovesExactly (aperiodicEvent 1).ricId := by
  refine (removesExactly_iff _ _ _ agentRun_oneAperiodic).mpr ?_
  intro ev hmem _
  have hev : (0, ev) = (0, aperiodicEvent 1) := List.mem_singleton.mp hmem
  rw [hev]
  rfl

/-- With two aperiodic subscriptions, deleting the second one fails the assertion: the search for
descriptor 0 stops at the first one. -/
theorem not_removesExactly_twoAperiodic :
    AgentRun ([.subscription 0 (aperiodicEvent 1)] ++ [.subscription 0 (aperiodicEvent 2)])
      twoAperiodic ∧ ¬ twoAperiodic.RemovesExactly (aperiodicEvent 2).ricId := by
  constructor
  · refine agentRun_oneAperiodic.step (.subscription ?_ ?_)
    · decide
    · intro htype
      cases htype
  · rintro ⟨closed, m', hstop, -⟩
    cases hstop

end IndEventMap

end LlmHric.Flexric
