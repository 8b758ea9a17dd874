import LlmHric.Library.KeyedList
import LlmHric.Library.Outcome
import LlmHric.Library.Run
import LlmHric.Rrc.DuRegistry
import Mathlib.Data.Int.Order.Basic
import Mathlib.Data.List.Basic
import Mathlib.Tactic.Common

/-! The CU-CP keeps the connected CU-UPs in a tree by SCTP association, beside a counter of them. A
UE is associated to a CU-UP when it gets its first bearer: to one that supports the slice, or else
to one picked by the UE's number. When the connection to a CU-UP is lost its UEs lose their
association; when a CU-UP connects the UEs without one are removed.

This file models `rrc_gNB_cuup.c`. -/

namespace LlmHric.Rrc

open Checked Run

/-! ### The state -/

/-- `e1ap_nssai_t`. -/
structure Nssai where
  sst : ℕ
  sd : ℕ
  deriving DecidableEq

/-- A PLMN with its slices. -/
structure E1Plmn where
  id : PlmnId
  slice : List Nssai
  deriving DecidableEq

/-- `e1ap_setup_req_t`. -/
structure E1SetupReq where
  gnbCuUpId : ℕ
  plmn : List E1Plmn
  deriving DecidableEq

/-- `nr_rrc_cuup_container_t`. -/
structure CuUp where
  assocId : AssocId
  setupReq : E1SetupReq
  deriving DecidableEq

/-- A UE context and the CU-UP in its F1 data, zero for none. -/
structure CuupUe where
  rrcUeId : ℕ
  e1AssocId : AssocId
  deriving DecidableEq

structure CuupState where
  cuups : List CuUp
  numCuups : ℕ
  ues : List CuupUe
  deriving DecidableEq

/-- `PLMN_LIST_MAX_SIZE`. -/
def plmnListMaxSize : ℕ := 6

/-- The slices of a CU-UP in the order of the loops. -/
def CuUp.slices (c : CuUp) : List Nssai := c.setupReq.plmn.flatMap E1Plmn.slice

def selectCuupSliceLoop (sst sd : ℕ) : Option CuUp → List (CuUp × Nssai) → Option CuUp
  | secondBestMatch, [] => secondBestMatch
  | secondBestMatch, (cuup, nssai) :: rest =>
    if nssai.sst = sst ∧ nssai.sd = sd then some cuup
    else if nssai.sst = sst ∧ secondBestMatch =
      none then selectCuupSliceLoop sst sd (some cuup) rest
    else selectCuupSliceLoop sst sd secondBestMatch rest

/-- `select_cuup_slice`. -/
def selectCuupSlice (cuups : List CuUp) (sst sd : ℕ) : Option CuUp :=
  selectCuupSliceLoop sst sd none (cuups.flatMap fun c => c.slices.map fun nssai => (c, nssai))

/-- `select_cuup_round_robin`; `rrc_ue_id - 1` is computed in 32 bits. -/
def selectCuupRoundRobin (nT : ℕ) (cuups : List CuUp) (rrcUeId : ℕ) : Option CuUp :=
  cuups[(rrcUeId + 2 ^ 32 - 1) % 2 ^ 32 % nT]?

def CuupState.setE1AssocId (s : CuupState) (rrcUeId : ℕ) (e1AssocId : AssocId) : CuupState :=
  { s with ues := s.ues.map fun ue => if ue.rrcUeId = rrcUeId then { ue with e1AssocId } else ue }

/-- `get_new_cuup_for_ue`; the root of the tree is one of its nodes. -/
def getNewCuupForUe (root : Option CuUp) (s : CuupState) (rrcUeId sst sd : ℕ) :
    Outcome (AssocId × CuupState) :=
  match s.ues.find? fun ue => ue.rrcUeId = rrcUeId with
  | none => .fault .assertion
  | some ue =>
    if ue.e1AssocId ≠ 0 then .done (ue.e1AssocId, s)
    else if s.cuups = [] then .done (0, s)
    else
      -- only where there is slice information
      let bySlice := if sst ≠ 0 then selectCuupSlice s.cuups sst sd else none
      match (bySlice.or (selectCuupRoundRobin s.numCuups s.cuups rrcUeId)).or root with
      | none => .fault .assertion
      | some selected => .done (selected.assocId, s.setE1AssocId rrcUeId selected.assocId)

/-- A request names the configured PLMNs, in their order. -/
def E1SetupReq.MatchesPlmns (req : E1SetupReq) (plmn : ℕ → PlmnId) : Prop :=
  ∀ p ∈ req.plmn.zipIdx, (plmn p.2).mcc = p.1.id.mcc ∧ (plmn p.2).mnc = p.1.id.mnc

instance (req : E1SetupReq) (plmn : ℕ → PlmnId) : Decidable (req.MatchesPlmns plmn) :=
  inferInstanceAs (Decidable (∀ p ∈ req.plmn.zipIdx, _))

/-- `remove_unassociated_e1_connections`. -/
def CuupState.removeUnassociated (s : CuupState) : CuupState :=
  { s with ues := s.ues.filter fun ue => ue.e1AssocId ≠ 0 }

/-- `rrc_gNB_process_e1_setup_req`; `RB_INSERT` inserts nothing where the association is taken. -/
def processE1SetupReq (plmn : ℕ → PlmnId) (s : CuupState) (assocId : AssocId) (req : E1SetupReq) :
    Outcome CuupState := do
  Outcome.assertFatal (req.plmn.length ≤ plmnListMaxSize)
  Outcome.require (∀ c ∈ s.cuups, req.gnbCuUpId ≠ c.setupReq.gnbCuUpId)
  Outcome.require (req.MatchesPlmns plmn)
  pure { s with
    cuups := KeyedList.insertSorted CuUp.assocId ⟨assocId, req⟩ s.cuups
    numCuups := s.numCuups + 1 }.removeUnassociated

/-- `invalidate_cuup_connections`. -/
def CuupState.invalidateCuupConnections (s : CuupState) (e1AssocId : AssocId) : CuupState :=
  { s with ues := s.ues.map fun ue => if ue.e1AssocId = e1AssocId then { ue with e1AssocId := 0 }
      else ue }

/-- `rrc_gNB_process_e1_lost_connection`. -/
def processE1LostConnection (s : CuupState) (assocId : AssocId) : Outcome CuupState := do
  Outcome.assertFatal (assocId ≠ 0)
  let s := s.invalidateCuupConnections assocId
  match s.cuups.find? fun c => c.assocId = assocId with
  | none => pure s
  | some _ => pure { s with
      cuups := s.cuups.eraseP fun c => c.assocId = assocId
      numCuups := s.numCuups - 1 }

/-- What happens to CU-UPs and UEs. -/
inductive CuupOp
  | e1Setup (assocId : AssocId) (req : E1SetupReq)
  | getNewCuup (root : Option CuUp) (rrcUeId : ℕ) (nssai : Nssai)
  | e1Lost (assocId : AssocId)
  /-- A new UE context, numbered from 1. -/
  | createUe (rrcUeId : ℕ)
  /-- A UE context goes. -/
  | releaseUe (rrcUeId : ℕ)

def CuupOp.exec (plmn : ℕ → PlmnId) (s : CuupState) : CuupOp → Outcome CuupState
  | e1Setup assocId req => processE1SetupReq plmn s assocId req
  | getNewCuup root rrcUeId nssai => do
    pure (← getNewCuupForUe root s rrcUeId nssai.sst nssai.sd).2
  | e1Lost assocId => processE1LostConnection s assocId
  | createUe rrcUeId => .done { s with ues := s.ues ++ [⟨rrcUeId, 0⟩] }
  | releaseUe rrcUeId => .done { s with ues := s.ues.filter fun ue => ue.rrcUeId ≠ rrcUeId }

/-- What the tree and the allocator of UE numbers provide. -/
def CuupOp.Admissible (s : CuupState) : CuupOp → Prop
  | getNewCuup root _ _ => ∀ c, root = some c → c ∈ s.cuups
  | createUe rrcUeId => 0 < rrcUeId ∧ rrcUeId < 2 ^ 32 ∧ ∀ ue ∈ s.ues, ue.rrcUeId ≠ rrcUeId
  | _ => True

/-- One step; a setup answered by a failure changes nothing. -/
def CuupStep (plmn : ℕ → PlmnId) (op : CuupOp) (s t : CuupState) : Prop :=
  op.Admissible s ∧ (op.exec plmn s = .done t ∨ op.exec plmn s = .refused ∧ t = s)

def CuupInit (s : CuupState) : Prop := s = ⟨[], 0, []⟩

/-! ### What is selected -/

def CuUp.Supports (c : CuUp) (nssai : Nssai) : Prop :=
  ∃ n ∈ c.slices, n.sst = nssai.sst ∧ n.sd = nssai.sd

/-- A CU-UP supports a slice of the same type. -/
def CuUp.SupportsSst (c : CuUp) (nssai : Nssai) : Prop := ∃ n ∈ c.slices, n.sst = nssai.sst

instance (c : CuUp) (nssai : Nssai) : Decidable (c.Supports nssai) :=
  inferInstanceAs (Decidable (∃ n ∈ c.slices, _))

instance (c : CuUp) (nssai : Nssai) : Decidable (c.SupportsSst nssai) :=
  inferInstanceAs (Decidable (∃ n ∈ c.slices, _))

theorem CuUp.Supports.sst {c : CuUp} {nssai : Nssai} (h : c.Supports nssai) :
    c.SupportsSst nssai := by
  obtain ⟨n, hn, hsst, -⟩ := h
  exact ⟨n, hn, hsst⟩

/-- The CU-UP that a UE shall get: one that supports the slice, else one that supports its SST, else
the one whose number by association is the UE's number modulo the number of CU-UPs. SST 0 stands for
no slice. -/
structure BestChoice (cuups : List CuUp) (nssai : Nssai) (rrcUeId : ℕ) (c : CuUp) : Prop where
  supports : nssai.sst ≠ 0 → (∃ d ∈ cuups, d.Supports nssai) → c.Supports nssai
  supportsSst : nssai.sst ≠ 0 → (∃ d ∈ cuups, d.SupportsSst nssai) → c.SupportsSst nssai
  roundRobin : nssai.sst = 0 ∨ (¬ ∃ d ∈ cuups, d.SupportsSst nssai) →
    (cuups.countP fun d => d.assocId < c.assocId) = (rrcUeId - 1) % cuups.length

/-- One loop finds what two would. -/
theorem selectCuupSliceLoop_eq (sst sd : ℕ) (second : Option CuUp) (l : List (CuUp × Nssai)) :
    selectCuupSliceLoop sst sd second l =
      ((l.find? fun p => p.2.sst = sst ∧ p.2.sd = sd).map Prod.fst).or
        (second.or ((l.find? fun p => p.2.sst = sst).map Prod.fst)) := by
  induction l generalizing second with
  | nil => simp [selectCuupSliceLoop]
  | cons p l ih =>
    obtain ⟨cuup, nssai⟩ := p
    rw [selectCuupSliceLoop, List.find?_cons, List.find?_cons]
    by_cases hexact : nssai.sst = sst ∧ nssai.sd = sd
    · simp [hexact]
    rw [if_neg hexact, ih, ih]
    by_cases hsst : nssai.sst = sst
    · cases second <;> simp_all
    · simp [hsst]

/-- The first slice of some kind belongs to the first CU-UP that has one. -/
theorem find?_slices (cuups : List CuUp) (q : Nssai → Prop) [DecidablePred q] :
    ((cuups.flatMap fun c => c.slices.map fun nssai => (c, nssai)).find? fun p => q p.2).map
        Prod.fst =
      cuups.find? fun c => ∃ n ∈ c.slices, q n := by
  induction cuups with
  | nil => rfl
  | cons c cuups ih =>
    rw [List.flatMap_cons, List.find?_append, List.find?_map, Option.map_or, ih]
    by_cases hq : ∃ n ∈ c.slices, q n
    · rw [List.find?_cons_of_pos (by simpa using hq)]
      cases hfind : c.slices.find? fun n => q n with
      | none =>
        obtain ⟨n, hn, hqn⟩ := hq
        exact absurd hqn (by simpa using List.find?_eq_none.mp hfind n hn)
      | some n =>
        have hcomp : List.find? ((fun p : CuUp × Nssai => decide (q p.2)) ∘ fun nssai => (c, nssai))
          c.slices = some n := hfind
        rw [hcomp]
        rfl
    · rw [List.find?_cons_of_neg (by simpa using hq)]
      have hnone : List.find? ((fun p : CuUp × Nssai => decide (q p.2)) ∘ fun nssai => (c, nssai))
          c.slices = none := by
        refine List.find?_eq_none.mpr fun n hn => ?_
        simpa using fun hqn => hq ⟨n, hn, hqn⟩
      rw [hnone]
      rfl

/-- The search over all slices is a search for a CU-UP with the slice, and then one for a CU-UP with
its SST. -/
theorem selectCuupSlice_eq (cuups : List CuUp) (nssai : Nssai) :
    selectCuupSlice cuups nssai.sst nssai.sd =
      (cuups.find? fun c => c.Supports nssai).or (cuups.find? fun c => c.SupportsSst nssai) := by
  unfold selectCuupSlice
  rw [selectCuupSliceLoop_eq, find?_slices cuups fun n => n.sst = nssai.sst ∧ n.sd = nssai.sd,
    find?_slices cuups fun n => n.sst = nssai.sst]
  rfl

/-- A CU-UP that the search finds is a best choice. -/
theorem bestChoice_of_slice {cuups : List CuUp} {nssai : Nssai} {rrcUeId : ℕ} {c : CuUp}
    (hsst : nssai.sst ≠ 0) (hc : selectCuupSlice cuups nssai.sst nssai.sd = some c) :
    c ∈ cuups ∧ BestChoice cuups nssai rrcUeId c := by
  rw [selectCuupSlice_eq] at hc
  rcases Option.or_eq_some_iff.mp hc with hexact | ⟨hnone, hsome⟩
  · have hmem := List.mem_of_find?_eq_some hexact
    have hsupports : c.Supports nssai := of_decide_eq_true (List.find?_some hexact :)
    refine ⟨hmem, fun _ _ => hsupports, fun _ _ => hsupports.sst, ?_⟩
    rintro (hzero | hnot)
    · exact absurd hzero hsst
    · exact absurd ⟨c, hmem, hsupports.sst⟩ hnot
  · have hmem := List.mem_of_find?_eq_some hsome
    have hsupports : c.SupportsSst nssai := of_decide_eq_true (List.find?_some hsome :)
    refine ⟨hmem, fun _ => ?_, fun _ _ => hsupports, ?_⟩
    · rintro ⟨d, hd, hdsupports⟩
      exact absurd hdsupports (by simpa using List.find?_eq_none.mp hnone d hd)
    · rintro (hzero | hnot)
      · exact absurd hzero hsst
      · exact absurd ⟨c, hmem, hsupports⟩ hnot

/-- Where the search finds nothing, no CU-UP supports the SST. -/
theorem not_supportsSst_of_slice {cuups : List CuUp} {nssai : Nssai}
    (hc : selectCuupSlice cuups nssai.sst nssai.sd = none) :
    ¬ ∃ d ∈ cuups, d.SupportsSst nssai := by
  rw [selectCuupSlice_eq, Option.or_eq_none_iff] at hc
  rintro ⟨d, hd, hsupports⟩
  exact absurd hsupports (by simpa using List.find?_eq_none.mp hc.2 d hd)

/-- The CU-UP of a UE's number. -/
theorem selectCuupRoundRobin_spec {cuups : List CuUp} {rrcUeId : ℕ}
    (hsorted : cuups.Pairwise fun c d => c.assocId < d.assocId) (hcuups : cuups ≠ [])
    (hpos : 0 < rrcUeId) (hlt : rrcUeId < 2 ^ 32) :
    ∃ c ∈ cuups, selectCuupRoundRobin cuups.length cuups rrcUeId = some c ∧
      (cuups.countP fun d => d.assocId < c.assocId) = (rrcUeId - 1) % cuups.length := by
  have hnum : (rrcUeId + 2 ^ 32 - 1) % 2 ^ 32 = rrcUeId - 1 := by omega
  have hindex := Nat.mod_lt (rrcUeId - 1) (List.length_pos_iff.mpr hcuups)
  have hget := List.getElem?_eq_getElem hindex
  refine ⟨_, List.getElem_mem hindex, ?_, KeyedList.countP_key_lt hsorted hget⟩
  rw [selectCuupRoundRobin, hnum, hget]

/-! ### What the steps keep -/

/-- Tree, counter and associations fit together. -/
structure CuupsOk (s : CuupState) : Prop where
  sorted : s.cuups.Pairwise fun c d => c.assocId < d.assocId
  num : s.numCuups = s.cuups.length
  ids : (s.ues.map CuupUe.rrcUeId).Nodup
  range : ∀ ue ∈ s.ues, 0 < ue.rrcUeId ∧ ue.rrcUeId < 2 ^ 32
  connected : ∀ ue ∈ s.ues, ue.e1AssocId = 0 ∨ ue.e1AssocId ∈ s.cuups.map CuUp.assocId

/-- The counter counts the CU-UPs, and every UE is associated to none or to a connected one. -/
structure CuupsKept (s : CuupState) : Prop where
  num : s.numCuups = s.cuups.length
  connected : ∀ ue ∈ s.ues, ue.e1AssocId = 0 ∨ ue.e1AssocId ∈ s.cuups.map CuUp.assocId

/-- A UE keeps its CU-UP until that one is lost or the UE goes, and one without gets the CU-UP that
it shall get. -/
structure CuupStepKept (op : CuupOp) (s t : CuupState) : Prop where
  keeps : ∀ ue ∈ s.ues, ue.e1AssocId ≠ 0 →
    ue ∈ t.ues ∨ op = .e1Lost ue.e1AssocId ∨ op = .releaseUe ue.rrcUeId
  selects : ∀ root rrcUeId nssai, op = .getNewCuup root rrcUeId nssai → s.cuups ≠ [] →
    ⟨rrcUeId, 0⟩ ∈ s.ues → ∃ c ∈ s.cuups, ⟨rrcUeId, c.assocId⟩ ∈ t.ues ∧
      BestChoice s.cuups nssai rrcUeId c

/-- A setup that is accepted although another CU-UP has the connection. -/
def CuupOp.AcceptedOnTaken (plmn : ℕ → PlmnId) : CuupOp → CuupState → Prop
  | e1Setup assocId req, s => assocId ∈ s.cuups.map CuUp.assocId ∧
      req.plmn.length ≤ plmnListMaxSize ∧ (∀ c ∈ s.cuups, req.gnbCuUpId ≠ c.setupReq.gnbCuUpId) ∧
      req.MatchesPlmns plmn
  | _, _ => False

section Steps

variable {plmn : ℕ → PlmnId} {s t : CuupState} {op : CuupOp}

theorem CuupsOk.kept (h : CuupsOk s) : CuupsKept s := ⟨h.num, h.connected⟩

/-- An accepted setup inserts the CU-UP, counts it, and removes UEs without a CU-UP. -/
theorem processE1SetupReq_eq_done_iff {assocId : AssocId} {req : E1SetupReq} :
    processE1SetupReq plmn s assocId req = .done t ↔
      req.plmn.length ≤ plmnListMaxSize ∧ (∀ c ∈ s.cuups, req.gnbCuUpId ≠ c.setupReq.gnbCuUpId) ∧
        req.MatchesPlmns plmn ∧
        t = ⟨KeyedList.insertSorted CuUp.assocId ⟨assocId, req⟩ s.cuups, s.numCuups + 1,
          s.ues.filter fun ue => ue.e1AssocId ≠ 0⟩ := by
  unfold processE1SetupReq
  rw [Outcome.bind_eq_done_iff]
  constructor
  · rintro ⟨_, hlen, hrest⟩
    obtain ⟨_, hids, hrest⟩ := Outcome.bind_eq_done_iff.mp hrest
    obtain ⟨_, hplmns, hdone⟩ := Outcome.bind_eq_done_iff.mp hrest
    cases hdone
    exact ⟨Outcome.assertFatal_eq_done_iff.mp hlen, Outcome.require_eq_done_iff.mp hids,
      Outcome.require_eq_done_iff.mp hplmns, rfl⟩
  · rintro ⟨hlen, hids, hplmns, rfl⟩
    refine ⟨(), Outcome.assertFatal_eq_done_iff.mpr hlen, Outcome.bind_eq_done_iff.mpr
      ⟨(), Outcome.require_eq_done_iff.mpr hids, Outcome.bind_eq_done_iff.mpr
        ⟨(), Outcome.require_eq_done_iff.mpr hplmns, rfl⟩⟩⟩

/-- Filtering the UEs keeps their numbers apart. -/
theorem CuupsOk.filter (h : CuupsOk s) (p : CuupUe → Bool) :
    CuupsOk { s with ues := s.ues.filter p } :=
  ⟨h.sorted, h.num, KeyedList.nodup_map_filter h.ids p,
    fun ue hue => h.range ue (List.mem_of_mem_filter hue),
    fun ue hue => h.connected ue (List.mem_of_mem_filter hue)⟩

/-- A setup on a new connection. -/
theorem CuupsOk.e1Setup {assocId : AssocId} {req : E1SetupReq} (h : CuupsOk s)
    (hnew : assocId ∉ s.cuups.map CuUp.assocId)
    (hdone : processE1SetupReq plmn s assocId req = .done t) :
    CuupsOk t ∧ CuupStepKept (.e1Setup assocId req) s t := by
  obtain ⟨-, -, -, rfl⟩ := processE1SetupReq_eq_done_iff.mp hdone
  obtain ⟨cuup, hcuup⟩ : ∃ cuup : CuUp, cuup = ⟨assocId, req⟩ := ⟨_, rfl⟩
  have hkey : cuup.assocId ∉ s.cuups.map CuUp.assocId := by rwa [hcuup]
  have hperm := KeyedList.perm_insertSorted hkey
  rw [← hcuup]
  constructor
  · have hfiltered := h.filter fun ue => ue.e1AssocId ≠ 0
    refine ⟨KeyedList.pairwise_insertSorted h.sorted hkey, ?_, hfiltered.ids, hfiltered.range,
      fun ue hue => ?_⟩
    · rw [h.num, hperm.length_eq]
      rfl
    · refine (hfiltered.connected ue hue).imp id fun hmem => ?_
      exact (hperm.map CuUp.assocId).mem_iff.mpr (List.mem_cons_of_mem _ hmem)
  · refine ⟨fun ue hue hne => .inl (List.mem_filter.mpr ⟨hue, decide_eq_true hne⟩), ?_⟩
    rintro root rrcUeId nssai heq
    cases heq

/-- A setup on a taken connection is counted, and the tree stays as it is. -/
theorem CuupsOk.e1Setup_taken {assocId : AssocId} {req : E1SetupReq} (h : CuupsOk s)
    (htaken : assocId ∈ s.cuups.map CuUp.assocId)
    (hdone : processE1SetupReq plmn s assocId req = .done t) : ¬ CuupsKept t := by
  obtain ⟨-, -, -, rfl⟩ := processE1SetupReq_eq_done_iff.mp hdone
  intro hkept
  have hnum : s.numCuups + 1 =
      (KeyedList.insertSorted CuUp.assocId ⟨assocId, req⟩ s.cuups).length := hkept.num
  rw [KeyedList.insertSorted_of_mem h.sorted htaken, h.num] at hnum
  omega

/-- Changing associations to connected CU-UPs or to none. -/
theorem CuupsOk.mapUes {f : CuupUe → CuupUe} (h : CuupsOk s)
    (hid : ∀ ue ∈ s.ues, (f ue).rrcUeId = ue.rrcUeId)
    (hconnected : ∀ ue ∈ s.ues, (f ue).e1AssocId = 0 ∨
    (f ue).e1AssocId ∈ s.cuups.map CuUp.assocId) :
    CuupsOk { s with ues := s.ues.map f } := by
  have hids : (s.ues.map f).map CuupUe.rrcUeId = s.ues.map CuupUe.rrcUeId := by
    rw [List.map_map]
    exact List.map_congr_left hid
  refine ⟨h.sorted, h.num, hids ▸ h.ids, fun ue hue => ?_, fun ue hue => ?_⟩
  · obtain ⟨old, hold, rfl⟩ := List.mem_map.mp hue
    rw [hid old hold]
    exact h.range old hold
  · obtain ⟨old, hold, rfl⟩ := List.mem_map.mp hue
    exact hconnected old hold

/-- No UE is left with a CU-UP that is lost. -/
theorem CuupsOk.invalidateCuupConnections (h : CuupsOk s) (assocId : AssocId) :
    CuupsOk (s.invalidateCuupConnections assocId) ∧
      ∀ ue ∈ (s.invalidateCuupConnections assocId).ues, ue.e1AssocId = 0 ∨
          ue.e1AssocId ≠ assocId := by
  refine ⟨h.mapUes (fun ue _ => ?_) (fun ue hue => ?_), fun ue hue => ?_⟩
  · split <;> rfl
  · split
    · exact .inl rfl
    · exact h.connected ue hue
  · obtain ⟨old, -, rfl⟩ := List.mem_map.mp hue
    by_cases heq : old.e1AssocId = assocId
    · rw [if_pos heq]
      exact .inl rfl
    · rw [if_neg heq]
      exact .inr heq

/-- A CU-UP without UEs goes. -/
theorem CuupsOk.erase {cuup : CuUp} (h : CuupsOk s) (hcuup : cuup ∈ s.cuups)
    (hfree : ∀ ue ∈ s.ues, ue.e1AssocId = 0 ∨ ue.e1AssocId ≠ cuup.assocId) :
    CuupsOk ⟨s.cuups.eraseP fun c => c.assocId = cuup.assocId, s.numCuups - 1, s.ues⟩ := by
  have hfilter := KeyedList.eraseP_key_eq_filter (k := cuup.assocId)
    (KeyedList.nodup_of_pairwise h.sorted)
  refine ⟨h.sorted.sublist List.eraseP_sublist, ?_, h.ids, h.range, fun ue hue => ?_⟩
  · rw [List.length_eraseP_of_mem hcuup (by simp), h.num]
  · rcases h.connected ue hue with hzero | hmem
    · exact .inl hzero
    rcases hfree ue hue with hzero | hne
    · exact .inl hzero
    obtain ⟨c, hc, hassoc⟩ := List.mem_map.mp hmem
    refine .inr (List.mem_map.mpr ⟨c, ?_, hassoc⟩)
    rw [hfilter]
    exact List.mem_filter.mpr ⟨hc, decide_eq_true (hassoc ▸ hne)⟩

theorem processE1LostConnection_cases {assocId : AssocId}
    (hdone : processE1LostConnection s assocId = .done t) :
    t = s.invalidateCuupConnections assocId ∨ ∃ cuup ∈ s.cuups, cuup.assocId = assocId ∧
      t = ⟨s.cuups.eraseP fun c => c.assocId = cuup.assocId, s.numCuups - 1,
        (s.invalidateCuupConnections assocId).ues⟩ := by
  unfold processE1LostConnection at hdone
  obtain ⟨_, -, hdone⟩ := Outcome.bind_eq_done_iff.mp hdone
  dsimp only at hdone
  split at hdone
  · cases hdone
    exact .inl rfl
  · next cuup hfind =>
    cases hdone
    have hassoc : cuup.assocId = assocId := of_decide_eq_true (List.find?_some hfind :)
    refine .inr ⟨cuup, List.mem_of_find?_eq_some hfind, hassoc, ?_⟩
    rw [hassoc]
    rfl

theorem CuupsOk.e1Lost {assocId : AssocId} (h : CuupsOk s)
    (hdone : processE1LostConnection s assocId = .done t) :
    CuupsOk t ∧ CuupStepKept (.e1Lost assocId) s t := by
  obtain ⟨hok, hfree⟩ := h.invalidateCuupConnections assocId
  have hstep : t.ues = (s.invalidateCuupConnections assocId).ues →
      CuupStepKept (.e1Lost assocId) s t := by
    intro hues
    refine ⟨fun ue hue _ => ?_, fun root rrcUeId nssai heq => by cases heq⟩
    by_cases heq : ue.e1AssocId = assocId
    · exact .inr (.inl (congrArg _ heq.symm))
    · exact .inl (hues ▸ List.mem_map.mpr ⟨ue, hue, if_neg heq⟩)
  rcases processE1LostConnection_cases hdone with rfl | ⟨cuup, hcuup, rfl, rfl⟩
  · exact ⟨hok, hstep rfl⟩
  · exact ⟨hok.erase hcuup hfree, hstep rfl⟩

/-- A selection is never refused. -/
theorem getNewCuupForUe_ne_refused {root : Option CuUp} {rrcUeId sst sd : ℕ} :
    getNewCuupForUe root s rrcUeId sst sd ≠ .refused := by
  unfold getNewCuupForUe
  split
  · simp
  by_cases hassoc : (‹CuupUe› : CuupUe).e1AssocId ≠ 0
  · rw [if_pos hassoc]
    simp
  rw [if_neg hassoc]
  by_cases hnil : s.cuups = []
  · rw [if_pos hnil]
    simp
  rw [if_neg hnil]
  dsimp only
  split <;> simp

/-- A UE gets a CU-UP: it has one, there is none, or it gets the one that it shall get. -/
theorem CuupsOk.getNewCuupForUe_cases {root : Option CuUp} {rrcUeId : ℕ} {nssai : Nssai}
    {a : AssocId}
    (h : CuupsOk s) (hdone : getNewCuupForUe root s rrcUeId nssai.sst nssai.sd = .done (a, t)) :
    ∃ ue ∈ s.ues, ue.rrcUeId = rrcUeId ∧
      ((t = s ∧ (ue.e1AssocId ≠ 0 ∨ s.cuups = [])) ∨
        (ue.e1AssocId = 0 ∧ ∃ c ∈ s.cuups, BestChoice s.cuups nssai rrcUeId c ∧
          t = s.setE1AssocId rrcUeId c.assocId)) := by
  unfold getNewCuupForUe at hdone
  split at hdone
  · cases hdone
  next ue hfind =>
  have hue := List.mem_of_find?_eq_some hfind
  have hid : ue.rrcUeId = rrcUeId := of_decide_eq_true (List.find?_some hfind :)
  refine ⟨ue, hue, hid, ?_⟩
  by_cases hassoc : ue.e1AssocId ≠ 0
  · rw [if_pos hassoc] at hdone
    cases hdone
    exact .inl ⟨rfl, .inl hassoc⟩
  rw [if_neg hassoc] at hdone
  by_cases hnil : s.cuups = []
  · rw [if_pos hnil] at hdone
    cases hdone
    exact .inl ⟨rfl, .inr hnil⟩
  rw [if_neg hnil] at hdone
  refine .inr ⟨not_not.mp hassoc, ?_⟩
  obtain ⟨hpos, hlt⟩ := h.range ue hue
  rw [hid] at hpos hlt
  obtain ⟨c, hc, hrobin, hrank⟩ := selectCuupRoundRobin_spec h.sorted hnil hpos hlt
  rw [h.num, hrobin] at hdone
  by_cases hsst : nssai.sst ≠ 0
  · cases hslice : selectCuupSlice s.cuups nssai.sst nssai.sd with
    | some d =>
      simp only [if_pos hsst, hslice, Option.some_or] at hdone
      cases hdone
      obtain ⟨hd, hbest⟩ := bestChoice_of_slice hsst hslice
      exact ⟨d, hd, hbest, rfl⟩
    | none =>
      simp only [if_pos hsst, hslice, Option.none_or, Option.some_or] at hdone
      cases hdone
      have hnot := not_supportsSst_of_slice hslice
      refine ⟨c, hc,
        ⟨fun _ ⟨d, hd, hsupports⟩ => ?_, fun _ hsome => absurd hsome hnot, fun _ => hrank⟩,
        rfl⟩
      exact absurd ⟨d, hd, hsupports.sst⟩ hnot
  · simp only [if_neg hsst, Option.none_or, Option.some_or] at hdone
    cases hdone
    exact ⟨c, hc, ⟨fun hne => absurd hne hsst, fun hne => absurd hne hsst, fun _ => hrank⟩, rfl⟩

/-- A selection. -/
theorem CuupsOk.getNewCuup {root : Option CuUp} {rrcUeId : ℕ} {nssai : Nssai} {a : AssocId}
    (h : CuupsOk s) (hdone : getNewCuupForUe root s rrcUeId nssai.sst nssai.sd = .done (a, t)) :
    CuupsOk t ∧ CuupStepKept (.getNewCuup root rrcUeId nssai) s t := by
  obtain ⟨ue, hue, hid, ⟨rfl, hwhy⟩ | ⟨hzero, c, hc, hbest, rfl⟩⟩ := h.getNewCuupForUe_cases hdone
  · refine ⟨h, fun ue hue _ => .inl hue, fun root' rrcUeId' nssai' heq hnil hmem => ?_⟩
    obtain ⟨rfl, rfl, rfl⟩ := CuupOp.getNewCuup.inj heq
    have hsame : ue = ⟨rrcUeId, 0⟩ := List.inj_on_of_nodup_map h.ids hue hmem hid
    rcases hwhy with hne | hempty
    · exact absurd (congrArg CuupUe.e1AssocId hsame) hne
    · exact absurd hempty hnil
  · have hue' : ue = ⟨rrcUeId, 0⟩ := by
      rw [← hid, ← hzero]
    refine ⟨h.mapUes (fun ue _ => ?_) (fun ue hue => ?_), fun other hother hne => ?_,
      fun root' rrcUeId' nssai' heq _ _ => ?_⟩
    · split <;> rfl
    · split
      · exact .inr (List.mem_map_of_mem hc)
      · exact h.connected ue hue
    · refine .inl (List.mem_map.mpr ⟨other, hother, if_neg fun hsame => ?_⟩)
      rw [List.inj_on_of_nodup_map h.ids hother hue (hsame.trans hid.symm)] at hne
      exact hne hzero
    · obtain ⟨rfl, rfl, rfl⟩ := CuupOp.getNewCuup.inj heq
      refine ⟨c, hc, List.mem_map.mpr ⟨ue, hue, ?_⟩, hbest⟩
      rw [if_pos hid, ← hid]

/-- Every step that is no accepted setup on a taken connection. -/
theorem CuupsOk.step (h : CuupsOk s) (hstep : CuupStep plmn op s t)
    (hgood : ¬ op.AcceptedOnTaken plmn s) : CuupsOk t ∧ CuupStepKept op s t := by
  obtain ⟨hadm, hdone | ⟨href, rfl⟩⟩ := hstep
  · cases op with
    | e1Setup assocId req =>
      refine h.e1Setup (fun htaken => hgood ?_) hdone
      obtain ⟨hlen, hids, hplmns, -⟩ := processE1SetupReq_eq_done_iff.mp hdone
      exact ⟨htaken, hlen, hids, hplmns⟩
    | getNewCuup root rrcUeId nssai =>
      obtain ⟨⟨a, s'⟩, hget, hret⟩ := Outcome.bind_eq_done_iff.mp hdone
      cases hret
      exact h.getNewCuup hget
    | e1Lost assocId => exact h.e1Lost hdone
    | createUe rrcUeId =>
      cases hdone
      obtain ⟨hpos, hlt, hnew⟩ := hadm
      refine ⟨⟨h.sorted, h.num, ?_, fun ue hue => ?_, fun ue hue => ?_⟩,
        fun ue hue _ => .inl (List.mem_append_left _ hue), fun _ _ _ heq => by cases heq⟩
      · rw [List.map_append, List.map_singleton, List.nodup_append_comm, List.singleton_append]
        refine List.nodup_cons.mpr ⟨fun hmem => ?_, h.ids⟩
        obtain ⟨ue, hue, hid⟩ := List.mem_map.mp hmem
        exact hnew ue hue hid
      · rcases List.mem_append.mp hue with hue | hue
        · exact h.range ue hue
        · rw [List.mem_singleton.mp hue]
          exact ⟨hpos, hlt⟩
      · rcases List.mem_append.mp hue with hue | hue
        · exact h.connected ue hue
        · rw [List.mem_singleton.mp hue]
          exact .inl rfl
    | releaseUe rrcUeId =>
      cases hdone
      refine ⟨h.filter fun ue => ue.rrcUeId ≠ rrcUeId, fun ue hue _ => ?_,
        fun _ _ _ heq => by cases heq⟩
      by_cases hid : ue.rrcUeId = rrcUeId
      · exact .inr (.inr (congrArg _ hid.symm))
      · exact .inl (List.mem_filter.mpr ⟨hue, decide_eq_true hid⟩)
  · refine ⟨h, fun ue hue _ => .inl hue, fun root rrcUeId nssai heq => ?_⟩
    subst heq
    have href :
        (do pure (← getNewCuupForUe root t rrcUeId nssai.sst nssai.sd).2 : Outcome CuupState) =
      .refused := href
    cases hget : getNewCuupForUe root t rrcUeId nssai.sst nssai.sd with
    | fault f =>
      rw [hget] at href
      cases href
    | refused => exact absurd hget getNewCuupForUe_ne_refused
    | done p =>
      rw [hget] at href
      cases href

end Steps

variable {plmn : ℕ → PlmnId}

/-- All along a run the counter and the associations are right and the UEs get and keep the CU-UPs
that they shall, exactly when no CU-UP is accepted on a connection that another one has. -/
theorem cuupsKept_iff (tr : List CuupOp) :
    ((∀ pre s, pre <+: tr → Reach (CuupStep plmn) CuupInit pre s → CuupsKept s) ∧
      ∀ pre op s t, pre ++ [op] <+: tr → Reach (CuupStep plmn) CuupInit pre s →
        CuupStep plmn op s t → CuupStepKept op s t) ↔
      ∀ pre op s t, pre ++ [op] <+: tr → Reach (CuupStep plmn) CuupInit pre s →
        CuupStep plmn op s t → ¬ op.AcceptedOnTaken plmn s := by
  have hstep : ∀ op s t, CuupsOk s → CuupStep plmn op s t → ¬ op.AcceptedOnTaken plmn s →
      CuupsOk t ∧ CuupStepKept op s t := fun _ _ _ h hstep hgood => h.step hstep hgood
  refine Reach.forall_prefix_step_iff ?_ (fun _ h => h.kept) hstep ?_ tr
  · rintro s rfl
    exact ⟨List.Pairwise.nil, rfl, List.nodup_nil, fun _ hue => absurd hue List.not_mem_nil,
      fun _ hue => absurd hue List.not_mem_nil⟩
  · intro op s t h ⟨_, hexec⟩ hbad hkept
    cases op with
    | e1Setup assocId req =>
      obtain ⟨htaken, hlen, hids, hplmns⟩ := hbad
      obtain ⟨t', haccept⟩ : ∃ t', processE1SetupReq plmn s assocId req = .done t' :=
        ⟨_, processE1SetupReq_eq_done_iff.mpr ⟨hlen, hids, hplmns, rfl⟩⟩
      rcases hexec with hdone | ⟨href, -⟩
      · exact absurd hkept (h.e1Setup_taken htaken hdone)
      · cases href.symm.trans haccept
    | getNewCuup root rrcUeId nssai => exact absurd hbad id
    | e1Lost assocId => exact absurd hbad id
    | createUe rrcUeId => exact absurd hbad id
    | releaseUe rrcUeId => exact absurd hbad id

/-- A CU-UP without slices asks for setup. -/
def cuUpRequest (gnbCuUpId : ℕ) : E1SetupReq := ⟨gnbCuUpId, [⟨⟨208, 99, 2⟩, []⟩]⟩

/-- Two CU-UPs are set up on one connection. -/
def twoSetups : List CuupOp := [.e1Setup 7 (cuUpRequest 1), .e1Setup 7 (cuUpRequest 2)]

/-- The second one is counted and not stored. -/
theorem not_cuupsKept_twoSetups :
    ∃ s, Reach (CuupStep fun _ => ⟨208, 99, 2⟩) CuupInit twoSetups s ∧
      s.cuups = [⟨7, cuUpRequest 1⟩] ∧ s.numCuups = 2 ∧ ¬ CuupsKept s := by
  have hinit : CuupInit ⟨[], 0, []⟩ := rfl
  have hfirst : CuupStep (fun _ => ⟨208, 99, 2⟩) (.e1Setup 7 (cuUpRequest 1)) ⟨[], 0, []⟩
      ⟨[⟨7, cuUpRequest 1⟩], 1, []⟩ := ⟨trivial, .inl rfl⟩
  have hsecond : CuupStep (fun _ => ⟨208, 99, 2⟩) (.e1Setup 7 (cuUpRequest 2))
      ⟨[⟨7, cuUpRequest 1⟩], 1, []⟩ ⟨[⟨7, cuUpRequest 1⟩], 2, []⟩ := ⟨trivial, .inl rfl⟩
  refine ⟨_, (Reach.first hinit hfirst).step hsecond, rfl, rfl, fun hkept => ?_⟩
  exact absurd hkept.num (by decide)

end LlmHric.Rrc
