import LlmHric.Library.KeyedList
import LlmHric.Rrc.SessionBearers

/-! A UE goes through session setups, added and removed flows and removed sessions. As long as no
step needs a 33rd DRB, no assertion fails and the mapping stays sound: the DRB of a flow belongs to
the flow's session, a flow that needs a DRB of its own is alone there, and no DRB carries more flows
than its limits. -/

namespace LlmHric.Rrc

open Checked FirstFit

variable {ue ue' : RrcUe} {sid : ℕ} {drbs : List Drb} {flows : List RrcQos}

/-! ### Operations -/

/-- Write the DRB of the flow that `findQos` finds. -/
def setDrbId (flows : List RrcQos) (qfi : ℤ) (drbId : ℕ) : List RrcQos :=
  flows.modify (flows.findIdx fun q => (q.qos.qfi : ℤ) = qfi) fun q => { q with drbId }

/-- Write the flows of the session that `findPduSession` finds. -/
def setFlows (sessions : List PduSession) (id : ℕ) (qos : List RrcQos) : List PduSession :=
  sessions.modify (sessions.findIdx fun s => s.pdusessionId = id) fun s => { s with qos }

/-- `addQos`, then `nrRrcAssignDrbToQosFlow` for the flow returned. -/
def addAndAssignQos (ue : RrcUe) (id : ℕ) (inQos : QosParameter) : Outcome RrcUe :=
  match findPduSession ue.pduSessions id with
  | none => .done ue
  | some session => do
    let (qos, added) ← addQos session.qos inQos
    match added with
    | none => return { ue with pduSessions := setFlows ue.pduSessions id qos }
    | some q =>
      let a ← nrRrcAssignDrbToQosFlow ue.drbs id qos q.qos.characteristics
      let qos := setDrbId qos q.qos.qfi a.drbId
      return { pduSessions := setFlows ue.pduSessions id qos, drbs := a.drbs }

inductive BearerOp
  | addBearers (enableSdap : Bool) (sessions : List SetupSession)
  | addQos (id : ℕ) (inQos : QosParameter)
  | rmQos (id : ℕ) (qfi : ℤ)
  | rmPduSession (id : ℕ)

def bearerStep (ue : RrcUe) : BearerOp → Outcome RrcUe
  | .addBearers enableSdap sessions =>
    nrRrcAddBearers enableSdap ue (sessions.map SetupSession.toPduSession)
  | .addQos id inQos => addAndAssignQos ue id inQos
  | .rmQos id qfi =>
    match findPduSession ue.pduSessions id with
    | none => .done ue
    | some session =>
      .done { ue with pduSessions := setFlows ue.pduSessions id (rmQos session.qos qfi).1 }
  | .rmPduSession id => do
    let removed ← rmPduSession ue id
    return removed.1

/-- The 5QIs of an operation are at most 255. -/
def BearerOp.FiveqisInRange : BearerOp → Prop
  | .addBearers _ sessions => ∀ s ∈ sessions, s.FiveqisInRange
  | .addQos _ inQos => FiveqiInRange inQos.characteristics
  | .rmQos .. | .rmPduSession _ => True

/-- The DRBs that an operation opens by first fit. -/
def drbsNeeded (ue : RrcUe) : BearerOp → ℕ
  | .addBearers _ sessions => requestNeeds (ue.pduSessions.map PduSession.pdusessionId) sessions
  | .addQos id inQos =>
    match findPduSession ue.pduSessions id with
    | none => 0
    | some session =>
      match addQos session.qos inQos with
      | .done (qos, some q) => newBin Load.fits (loads ue.drbs id qos) q.kind
      | _ => 0
  | .rmQos .. | .rmPduSession _ => 0

/-- The operations never need more than 32 DRBs. -/
def WithinCapacity (ue : RrcUe) : List BearerOp → Prop
  | [] => True
  | op :: ops => ue.drbs.length + drbsNeeded ue op ≤ maxDrbsPerUe ∧
      match bearerStep ue op with
      | .done ue' => WithinCapacity ue' ops
      | _ => True

instance decidableWithinCapacity (ue : RrcUe) :
    (ops : List BearerOp) → Decidable (WithinCapacity ue ops)
  | [] => .isTrue trivial
  | op :: ops => by
    unfold WithinCapacity
    refine @instDecidableAnd _ _ inferInstance ?_
    cases bearerStep ue op with
    | done ue' => exact decidableWithinCapacity ue' ops
    | fault | refused => exact .isTrue trivial

/-! ### A sound mapping -/

def RrcUe.qosFlows (ue : RrcUe) : List RrcQos := ue.pduSessions.flatMap PduSession.qos

/-- A flow with a guaranteed bit rate by the table. -/
def IsGbr (q : RrcQos) : Prop := countedAs q.qos.characteristics = .done .gbr

instance (q : RrcQos) : Decidable (IsGbr q) := inferInstanceAs (Decidable (_ = _))

/-- A sound mapping of flows to DRBs. -/
structure QosMapping (ue : RrcUe) : Prop where
  nodup : (ue.drbs.map Drb.drbId).Nodup
  range : ∀ drb ∈ ue.drbs, 1 ≤ drb.drbId ∧ drb.drbId ≤ maxDrbsPerUe
  same_session : ∀ s ∈ ue.pduSessions, ∀ q ∈ s.qos, q.drbId ≠ 0 →
    ∃ drb ∈ ue.drbs, drb.drbId = q.drbId ∧ drb.pdusessionId = s.pdusessionId
  alone : ∀ q ∈ ue.qosFlows, q.drbId ≠ 0 → nrRrcQosDedicatedDrb q.qos.characteristics = .done true →
    ue.qosFlows.countP (fun r => r.drbId = q.drbId) = 1
  gbr_le : ∀ drb ∈ ue.drbs, ue.qosFlows.countP (fun q => q.drbId = drb.drbId ∧ IsGbr q) ≤ 2
  total_le : ∀ drb ∈ ue.drbs, ue.qosFlows.countP (fun q => q.drbId = drb.drbId) ≤ 5

/-- What holds of a DRB's flows in its session holds of them in the UE. -/
theorem BearersOk.countP_flows (h : BearersOk ue) {drb : Drb} (hdrb : drb ∈ ue.drbs)
    {s : PduSession} (hs : s ∈ ue.pduSessions) (hsid : s.pdusessionId = drb.pdusessionId)
    {p : RrcQos → Bool} (hp : ∀ q, p q = true → q.drbId = drb.drbId) :
    ue.qosFlows.countP p = s.qos.countP p := by
  have hother : ∀ t ∈ ue.pduSessions, t.pdusessionId ≠ s.pdusessionId → t.qos.countP p = 0 := by
    intro t ht hne
    rw [List.countP_eq_zero]
    intro q hq hpq
    have hd := hp q hpq
    have hmem := (h.flowsOk t ht).mapped q hq (hd ▸ Nat.ne_of_gt (h.ids.pos drb hdrb))
    have heq := List.inj_on_of_nodup_map h.ids.nodup hmem hdrb hd
    rw [hsid, ← heq] at hne
    exact hne rfl
  have hnodup := h.nodup
  obtain ⟨before, behind, hsplit⟩ := List.append_of_mem hs
  rw [RrcUe.qosFlows, hsplit, List.flatMap_append, List.flatMap_cons, List.countP_append,
    List.countP_append]
  rw [hsplit, List.map_append, List.map_cons, List.nodup_middle, List.nodup_cons,
    List.mem_append, not_or] at hnodup
  have hzero : ∀ l : List PduSession, (∀ t ∈ l, t ∈ ue.pduSessions) →
      s.pdusessionId ∉ l.map PduSession.pdusessionId → (l.flatMap PduSession.qos).countP p = 0 := by
    intro l hl hnot
    rw [List.countP_eq_zero]
    intro q hq hpq
    obtain ⟨t, ht, hqt⟩ := List.mem_flatMap.mp hq
    have h0 := hother t (hl t ht) fun heq => hnot (heq ▸ List.mem_map_of_mem ht)
    exact List.countP_eq_zero.mp h0 q hqt hpq
  rw [hzero before (fun t ht => hsplit ▸ List.mem_append_left _ ht) hnodup.1.1,
    hzero behind (fun t ht => hsplit ▸ List.mem_append_right _ (List.mem_cons_of_mem _ ht))
      hnodup.1.2]
  omega

theorem Load.Ok.total_le {l : Load} (h : l.Ok) : l.alone + l.gbr + l.nonGbr ≤ 5 := by
  unfold Load.Ok at h
  omega

theorem countP_isGbr_le {d : ℕ} (h : ∀ q ∈ flows, q.drbId = d → Sound q) (hok : (load flows d).Ok) :
    flows.countP (fun q => q.drbId = d ∧ IsGbr q) ≤ 2 := by
  have hle : flows.countP (fun q => q.drbId = d ∧ IsGbr q) ≤
      (load flows d).alone + (load flows d).gbr := by
    clear hok
    induction flows with
    | nil => exact Nat.zero_le _
    | cons q flows ih =>
      rw [List.forall_mem_cons] at h
      have ih := ih h.2
      rw [List.countP_cons, ← List.nil_append (q :: flows), load_insert, List.nil_append]
      generalize flows.countP (fun q => decide (q.drbId = d ∧ IsGbr q)) = n at ih ⊢
      by_cases hd : q.drbId = d
      · rw [if_pos hd]
        by_cases hgbr : IsGbr q
        · have htype : resourceType q.qos.characteristics = .gbr :=
            Outcome.done.inj ((countedAs_eq (h.1 hd).1 (h.1 hd).2).symm.trans hgbr)
          cases hded : dedicated q.qos.characteristics <;>
            simp [hd, hgbr, RrcQos.kind, kind, htype, hded, Load.put] <;> omega
        · cases hk : q.kind <;> simp [hgbr, Load.put] <;> omega
      · simpa [hd] using ih
  unfold Load.Ok at hok
  omega

/-- The invariant of a UE makes a sound mapping. -/
theorem BearersOk.qosMapping (h : BearersOk ue) : QosMapping ue where
  nodup := h.ids.nodup
  range := fun drb hdrb => ⟨h.ids.pos drb hdrb, h.ids.le drb hdrb⟩
  same_session := fun s hs q hq hd => ⟨_, (h.flowsOk s hs).mapped q hq hd, rfl, rfl⟩
  alone := by
    intro q hq hd hded
    obtain ⟨s, hs, hqs⟩ := List.mem_flatMap.mp hq
    have hflows := h.flowsOk s hs
    have hdrb := hflows.mapped q hqs hd
    have hsound : Sound q := ⟨hflows.acceptable q hqs, hflows.inRange q hqs hd⟩
    rw [h.countP_flows hdrb hs rfl (fun r hr => of_decide_eq_true hr), ← load_total s.qos q.drbId]
    have halone : 0 < (load s.qos q.drbId).alone := by
      apply List.countP_pos_iff.mpr
      refine ⟨q, hqs, ?_⟩
      rw [nrRrcQosDedicatedDrb_eq hsound.1 hsound.2] at hded
      simp [RrcQos.kind, kind, Outcome.done.inj hded]
    have hok := hflows.load_ok _ hd
    unfold Load.Ok at hok
    omega
  gbr_le := by
    intro drb hdrb
    obtain ⟨s, hs, hsid⟩ := List.mem_map.mp (h.owner drb hdrb)
    rw [h.countP_flows hdrb hs hsid fun q hq => (of_decide_eq_true hq).1]
    obtain ⟨hsound, hok⟩ := (h.flowsOk s hs).drbsCounted h.ids drb hdrb hsid.symm
    exact countP_isGbr_le hsound hok
  total_le := by
    intro drb hdrb
    obtain ⟨s, hs, hsid⟩ := List.mem_map.mp (h.owner drb hdrb)
    rw [h.countP_flows hdrb hs hsid fun q hq => of_decide_eq_true hq, ← load_total]
    exact ((h.flowsOk s hs).drbsCounted h.ids drb hdrb hsid.symm).2.total_le

/-! ### One operation -/

theorem findPduSession_spec {sessions : List PduSession} {s : PduSession}
    (h : findPduSession sessions sid = some s) : s ∈ sessions ∧ s.pdusessionId = sid :=
  ⟨List.mem_of_find?_eq_some h, of_decide_eq_true (List.find?_some h :)⟩

/-- A session keeps its place when its flows are written. -/
theorem setFlows_spec {sessions : List PduSession} {s : PduSession} (qos : List RrcQos)
    (h : findPduSession sessions sid = some s) :
    (setFlows sessions sid qos).map PduSession.pdusessionId =
        sessions.map PduSession.pdusessionId ∧
      ∀ t ∈ setFlows sessions sid qos, t = { s with qos } ∨ t ∈ sessions := by
  obtain ⟨before, behind, rfl, hmod⟩ := KeyedList.modify_findIdx h fun s => { s with qos }
  rw [setFlows, hmod]
  refine ⟨by simp, ?_⟩
  intro t ht
  simp only [List.mem_append, List.mem_cons] at ht ⊢
  tauto

/-- The flows of one session are replaced, and DRBs are added for it. -/
theorem BearersOk.setFlows (h : BearersOk ue) {s : PduSession} {qos : List RrcQos}
    (hs : findPduSession ue.pduSessions sid = some s) (hids : DrbIdsOk drbs)
    (hpre : ue.drbs <+: drbs) (hnew : ∀ drb ∈ drbs, drb ∈ ue.drbs ∨ drb.pdusessionId = sid)
    (hqos : FlowsOk drbs sid qos) (hrange : ∀ q ∈ qos, FiveqiInRange q.qos.characteristics) :
    BearersOk ⟨setFlows ue.pduSessions sid qos, drbs⟩ := by
  obtain ⟨hmem, rfl⟩ := findPduSession_spec hs
  obtain ⟨hsame, hcases⟩ := setFlows_spec qos hs
  refine ⟨⟨hids, ?_⟩, hsame ▸ h.nodup, ?_, ?_, ?_⟩
  · intro drb hdrb
    rw [hsame]
    rcases hnew drb hdrb with hdrb | hdrb
    · exact h.owner drb hdrb
    · exact hdrb ▸ List.mem_map_of_mem hmem
  · intro t ht
    rcases hcases t ht with rfl | ht
    · exact h.idOk s hmem
    · exact h.idOk t ht
  · intro t ht
    rcases hcases t ht with rfl | ht
    · exact hqos
    · exact (h.flowsOk t ht).mono fun drb hdrb _ => hpre.subset hdrb
  · intro t ht
    rcases hcases t ht with rfl | ht
    · exact hrange
    · exact h.inRange t ht

theorem FlowsOk.concat {q : RrcQos} (h : FlowsOk drbs sid flows) (hq : q.drbId = 0)
    (hacc : Acceptable q.qos.characteristics) : FlowsOk drbs sid (flows ++ [q]) where
  acceptable := by
    intro r hr
    rcases List.mem_append.mp hr with hr | hr
    · exact h.acceptable r hr
    · exact List.mem_singleton.mp hr ▸ hacc
  inRange := by
    intro r hr hd
    rcases List.mem_append.mp hr with hr | hr
    · exact h.inRange r hr hd
    · exact absurd (List.mem_singleton.mp hr ▸ hq) hd
  mapped := by
    intro r hr hd
    rcases List.mem_append.mp hr with hr | hr
    · exact h.mapped r hr hd
    · exact absurd (List.mem_singleton.mp hr ▸ hq) hd
  load_ok := by
    intro d hd
    rw [load_insert, if_neg (hq.trans_ne hd.symm), List.append_nil]
    exact h.load_ok d hd

/-- The flow that `addQos` returns is one that a search finds. -/
theorem findQos_addQos {inQos : QosParameter} {qos : List RrcQos} {q : RrcQos}
    (h : addQos flows inQos = .done (qos, some q)) : findQos qos q.qos.qfi = some q := by
  rcases addQos_cases h with ⟨rfl, hr | ⟨r, hr, hfind⟩⟩ | ⟨rfl, hr, -, hnone⟩
  · cases hr
  · obtain rfl := Option.some.inj hr
    exact hfind
  · obtain rfl := Option.some.inj hr
    rw [findQos, List.find?_append, ← findQos, hnone]
    simp

theorem BearersOk.addAndAssignQos (h : BearersOk ue) {inQos : QosParameter}
    (hn : FiveqiInRange inQos.characteristics)
    (hcap : ue.drbs.length + drbsNeeded ue (.addQos sid inQos) ≤ maxDrbsPerUe) :
    ∃ ue', addAndAssignQos ue sid inQos = .done ue' ∧ BearersOk ue' := by
  unfold Rrc.addAndAssignQos
  change ue.drbs.length + (match findPduSession ue.pduSessions sid with
    | none => 0
    | some session =>
      match addQos session.qos inQos with
      | .done (qos, some q) => newBin Load.fits (loads ue.drbs sid qos) q.kind
      | _ => 0) ≤ maxDrbsPerUe at hcap
  cases hs : findPduSession ue.pduSessions sid with
  | none => exact ⟨ue, rfl, h⟩
  | some s =>
    obtain ⟨hmem, rfl⟩ := findPduSession_spec hs
    obtain ⟨⟨qos, r⟩, hadd⟩ := addQos_eq_done s.qos hn
    rw [hs] at hcap
    dsimp only at hcap ⊢
    rw [hadd] at hcap ⊢
    rw [Outcome.done_bind]
    obtain ⟨hqos, hrange⟩ : FlowsOk ue.drbs s.pdusessionId qos ∧
        ∀ q ∈ qos, FiveqiInRange q.qos.characteristics := by
      rcases addQos_cases hadd with ⟨rfl, -⟩ | ⟨rfl, -, hacc, -⟩
      · exact ⟨h.flowsOk s hmem, h.inRange s hmem⟩
      · refine ⟨(h.flowsOk s hmem).concat rfl hacc, ?_⟩
        intro q hq
        rcases List.mem_append.mp hq with hq | hq
        · exact h.inRange s hmem q hq
        · exact List.mem_singleton.mp hq ▸ hn
    cases r with
    | none =>
      exact ⟨_, rfl, h.setFlows hs h.ids (List.prefix_refl _) (fun _ hd => .inl hd) hqos hrange⟩
    | some q =>
      have hfind := findQos_addQos hadd
      have hqmem := List.mem_of_find?_eq_some hfind
      have hex : ∃ a, assignment ue.drbs s.pdusessionId qos q.kind = some a :=
        (isSome_assignment_iff h.ids).mpr hcap
      obtain ⟨a, ha⟩ := hex
      have hassigned := assigned hqos h.ids ha
      dsimp only
      rw [nrRrcAssignDrbToQosFlow_eq (h.idOk s hmem) h.ids (hqos.acceptable q hqmem)
        (hrange q hqmem) (hqos.drbsCounted h.ids), ← RrcQos.kind, ha]
      obtain ⟨pre, post, rfl, hmod⟩ :=
        KeyedList.modify_findIdx hfind fun q => { q with drbId := a.drbId }
      rw [← setDrbId] at hmod
      dsimp only
      rw [Outcome.done_bind, hmod]
      refine ⟨_, rfl, h.setFlows hs hassigned.ids hassigned.isPrefix hassigned.new
        (hqos.assign h.ids (hrange q hqmem) ha) ?_⟩
      intro r hr
      rcases List.mem_append.mp hr with hr | hr
      · exact hrange r (List.mem_append_left _ hr)
      · rcases List.mem_cons.mp hr with rfl | hr
        · exact hrange q hqmem
        · exact hrange r (List.mem_append_right _ (List.mem_cons_of_mem _ hr))

theorem rmDrbsOfSession_eq (hsid : 0 < sid ∧ sid ≤ nrMaxNbPduSessions) {fuel : ℕ}
    (hfuel : drbs.length < fuel) :
    rmDrbsOfSession sid fuel drbs = .done (drbs.filter fun drb => drb.pdusessionId ≠ sid) := by
  induction fuel generalizing drbs with
  | zero => exact absurd hfuel (Nat.not_lt_zero _)
  | succ fuel ih =>
    rw [rmDrbsOfSession, findDrbByPdusessionId, Outcome.assertFatal_of hsid, Outcome.done_bind,
      Outcome.pure_eq, Outcome.done_bind]
    cases hfind : drbs.find? fun drb => drb.pdusessionId = sid with
    | none =>
      rw [List.find?_eq_none] at hfind
      have hsame : drbs.filter (fun drb => drb.pdusessionId ≠ sid) = drbs := by
        rw [List.filter_eq_self]
        intro drb hdrb
        simpa using hfind drb hdrb
      rw [hsame]
      rfl
    | some drb =>
      obtain ⟨e, before, behind, -, hd, rfl, herase⟩ := List.exists_of_eraseP
        (p := fun drb => drb.pdusessionId = sid) (List.mem_of_find?_eq_some hfind)
        (List.find?_some hfind :)
      dsimp only
      rw [herase, ih (by simp only [List.length_append, List.length_cons] at hfuel ⊢; omega)]
      simp [of_decide_eq_true hd]

theorem BearersOk.rmPduSession (h : BearersOk ue) (sid : ℕ) :
    ∃ r, rmPduSession ue sid = .done r ∧ BearersOk r.1 := by
  unfold Rrc.rmPduSession
  cases hs : findPduSession ue.pduSessions sid with
  | none => exact ⟨_, rfl, h⟩
  | some s =>
    obtain ⟨hmem, rfl⟩ := findPduSession_spec hs
    dsimp only
    rw [rmDrbsOfSession_eq (h.idOk s hmem) (Nat.lt_succ_self _), Outcome.done_bind]
    refine ⟨_, rfl, ?_⟩
    have hsub : (ue.pduSessions.eraseP fun t => t.pdusessionId = s.pdusessionId).Sublist
        ue.pduSessions := List.eraseP_sublist
    have hdrbs : (ue.drbs.filter fun drb => drb.pdusessionId ≠ s.pdusessionId).Sublist ue.drbs :=
      List.filter_sublist
    obtain ⟨e, before, behind, -, he, hsplit, herase⟩ := List.exists_of_eraseP hmem
      (p := fun t => t.pdusessionId = s.pdusessionId) (decide_eq_true rfl)
    have he : e.pdusessionId = s.pdusessionId := of_decide_eq_true he
    have hnodup := h.nodup
    rw [hsplit, List.map_append, List.map_cons, List.nodup_middle, List.nodup_cons, he,
      ← List.map_append, ← herase] at hnodup
    refine ⟨⟨h.ids.sublist hdrbs, ?_⟩, hnodup.2, ?_, ?_, ?_⟩
    · intro drb hdrb
      obtain ⟨hdrb, hne⟩ := List.mem_filter.mp hdrb
      have howner := h.owner drb hdrb
      rw [hsplit, List.map_append, List.map_cons, List.mem_append, List.mem_cons] at howner
      rw [herase, List.map_append, List.mem_append]
      rcases howner with howner | howner | howner
      · exact .inl howner
      · exact absurd (howner.trans he) (of_decide_eq_true hne)
      · exact .inr howner
    · exact fun t ht => h.idOk t (hsub.subset ht)
    · intro t ht
      apply (h.flowsOk t (hsub.subset ht)).mono
      intro drb hdrb hsame
      refine List.mem_filter.mpr ⟨hdrb, decide_eq_true fun heq => ?_⟩
      have hid := List.mem_map_of_mem (f := PduSession.pdusessionId) ht
      rw [← hsame, heq] at hid
      exact hnodup.1 hid
    · exact fun t ht => h.inRange t (hsub.subset ht)

theorem BearersOk.rmQos (h : BearersOk ue) {s : PduSession} {qfi : ℤ}
    (hs : findPduSession ue.pduSessions sid = some s) :
    BearersOk { ue with pduSessions := Rrc.setFlows ue.pduSessions sid (rmQos s.qos qfi).1 } := by
  obtain ⟨hmem, rfl⟩ := findPduSession_spec hs
  have hsub : (Rrc.rmQos s.qos qfi).1.Sublist s.qos := by
    unfold Rrc.rmQos
    split_ifs
    · exact List.Sublist.refl _
    · cases findQos s.qos qfi with
      | none => exact List.Sublist.refl _
      | some q => exact List.eraseP_sublist
  exact h.setFlows hs h.ids (List.prefix_refl _) (fun _ hd => .inl hd)
    ((h.flowsOk s hmem).sublist hsub) fun q hq => h.inRange s hmem q (hsub.subset hq)

/-- One operation for which the DRBs suffice is carried out and keeps the bearers in order. -/
theorem BearersOk.bearerStep (h : BearersOk ue) {op : BearerOp} (hop : op.FiveqisInRange)
    (hcap : ue.drbs.length + drbsNeeded ue op ≤ maxDrbsPerUe) :
    ∃ ue', bearerStep ue op = .done ue' ∧ BearersOk ue' := by
  cases op with
  | addBearers enableSdap sessions =>
    obtain ⟨ue', hrun, hadded⟩ := nrRrcAddBearers_of_suffices h.toDrbsOwned
      ⟨hcap, fun s hs => hop s (mem_of_mem_accepted hs)⟩
    exact ⟨ue', hrun, hadded.ok h⟩
  | addQos id inQos => exact h.addAndAssignQos hop hcap
  | rmQos id qfi =>
    simp only [Rrc.bearerStep]
    cases hs : findPduSession ue.pduSessions id with
    | none => exact ⟨ue, rfl, h⟩
    | some s => exact ⟨_, rfl, h.rmQos hs⟩
  | rmPduSession id =>
    obtain ⟨r, hr, hok⟩ := h.rmPduSession id
    exact ⟨r.1, by rw [Rrc.bearerStep, hr]; rfl, hok⟩

/-- A UE without sessions. -/
def RrcUe.initial : RrcUe := ⟨[], []⟩

theorem bearersOk_initial : BearersOk RrcUe.initial := by
  refine ⟨⟨⟨List.nodup_nil, ?_, ?_⟩, ?_⟩, List.nodup_nil, ?_, ?_, ?_⟩ <;>
    simp [RrcUe.initial]

theorem BearersOk.run (h : BearersOk ue) {ops : List BearerOp}
    (hops : ∀ op ∈ ops, op.FiveqisInRange) (hcap : WithinCapacity ue ops) :
    ∃ ue', ops.foldlM Rrc.bearerStep ue = .done ue' ∧ BearersOk ue' := by
  induction ops generalizing ue with
  | nil => exact ⟨ue, rfl, h⟩
  | cons op ops ih =>
    rw [List.forall_mem_cons] at hops
    obtain ⟨hneeded, hrest⟩ := hcap
    obtain ⟨ue₁, hone, hok⟩ := h.bearerStep hops.1 hneeded
    rw [hone] at hrest
    obtain ⟨ue', hrun, hok'⟩ := ih hok hops.2 hrest
    exact ⟨ue', by rw [List.foldlM_cons, hone]; exact hrun, hok'⟩

/-- After any run that never needs more than 32 DRBs, no assertion has failed and the mapping is
sound. -/
theorem qosMapping_of_withinCapacity (ops : List BearerOp)
    (hops : ∀ op ∈ ops, op.FiveqisInRange) (hcap : WithinCapacity RrcUe.initial ops) :
    ∃ ue, ops.foldlM bearerStep RrcUe.initial = .done ue ∧ QosMapping ue := by
  obtain ⟨ue, hrun, hok⟩ := bearersOk_initial.run hops hcap
  exact ⟨ue, hrun, hok.qosMapping⟩

/-- A session with a voice flow, a default flow and a flow of a remote control. -/
def voiceSession : SetupSession where
  pdusessionId := 1
  idOk := sessionIdOk_one
  qos := [⟨0, 1, .nonDynamic 1⟩, ⟨0, 2, .nonDynamic 5⟩, ⟨0, 3, .nonDynamic 82⟩]
  built := ⟨[⟨1, .nonDynamic 1⟩, ⟨2, .nonDynamic 5⟩, ⟨3, .nonDynamic 82⟩], by decide⟩

end LlmHric.Rrc
