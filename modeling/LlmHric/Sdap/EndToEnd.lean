import LlmHric.Sdap.EntityStore

/-! The same configurations are applied at the UE and at the gNB, and a PDU that one side makes is
handed to the other as it is. Both sides hold the same rules, but they do not agree about headers:
the sender looks at the rule of the flow, and a flow on the default DRB has none; the receiver looks
for a QFI in every PDU as soon as the first configuration of the session has a header in any
direction. -/

namespace LlmHric.Sdap

open SdapEntity

variable {e e' ue gnb : SdapEntity} {sdap : SdapConfig} {qfi : Qfi} {l l' : List SdapEntity}
  {sdu : List UInt8} {rqi : Bool} {ueId gnbUeId : ℕ} {pdusessionId : ℤ}

theorem hdrQfi_ulHdr : ∀ (qfi : Qfi) (r dc : Bool), hdrQfi (ulHdr qfi r dc) = qfi := by
  decide

theorem hdrQfi_dlHdr (qfi : Qfi) (rqi rdi : Bool) : hdrQfi (dlHdr qfi rqi rdi) = qfi :=
  hdrQfi_ulHdr qfi rqi rdi

/-- The role of a side for headers in uplink and in downlink. -/
def sdapRole (isGnb ul dl : Bool) : UInt8 :=
  (if ul then if isGnb then sdapUlRx else sdapUlTx else noSdapHeader) |||
    (if dl then if isGnb then sdapDlTx else sdapDlRx else noSdapHeader)

@[simp] theorem sdapRole_and_sdapUlTx (isGnb ul dl : Bool) :
    sdapRole isGnb ul dl &&& sdapUlTx ≠ 0 ↔ isGnb = false ∧ ul = true := by
  revert isGnb ul dl
  decide

@[simp] theorem sdapRole_and_sdapUlRx (isGnb ul dl : Bool) :
    sdapRole isGnb ul dl &&& sdapUlRx ≠ 0 ↔ isGnb = true ∧ ul = true := by
  revert isGnb ul dl
  decide

@[simp] theorem sdapRole_and_sdapDlTx (isGnb ul dl : Bool) :
    sdapRole isGnb ul dl &&& sdapDlTx ≠ 0 ↔ isGnb = true ∧ dl = true := by
  revert isGnb ul dl
  decide

@[simp] theorem sdapRole_and_sdapDlRx (isGnb ul dl : Bool) :
    sdapRole isGnb ul dl &&& sdapDlRx ≠ 0 ↔ isGnb = false ∧ dl = true := by
  revert isGnb ul dl
  decide

theorem sdapRole_ne_noSdapHeader (isGnb ul dl : Bool) :
    sdapRole isGnb ul dl ≠ noSdapHeader ↔ ul = true ∨ dl = true := by
  revert isGnb ul dl
  decide

/-! ### The two sides -/

/-- The rules of the two sides for a flow: the same DRB, and the roles for the same headers. There
is no header without a DRB. -/
inductive PairedRule : Qfi2Drb → Qfi2Drb → Prop
  | none : PairedRule noMappingRule noMappingRule
  | some {drbId : ℤ} (ul dl : Bool) (hdrb : drbId ≠ 0) :
      PairedRule ⟨drbId, sdapRole false ul dl⟩ ⟨drbId, sdapRole true ul dl⟩

/-- The entities of the UE and of the gNB for a PDU session. -/
structure Paired (ue gnb : SdapEntity) : Prop where
  enableSdap : gnb.enableSdap = ue.enableSdap
  defaultDrb : gnb.defaultDrb = ue.defaultDrb
  rule : ∀ qfi, PairedRule (ue.qfi2drbTable qfi) (gnb.qfi2drbTable qfi)

/-- The configurations of the two sides. -/
inductive PairedConfig : SdapConfig → SdapConfig → Prop
  | intro (pdusessionId : ℤ) (drbId : ℤ) (ul dl defaultDRB : Bool)
      (mappedQFIs2Add mappedQFIs2Release : List Qfi) :
      PairedConfig
        ⟨pdusessionId, drbId, sdapRole false ul dl, defaultDRB, mappedQFIs2Add, mappedQFIs2Release⟩
        ⟨pdusessionId, drbId, sdapRole true ul dl, defaultDRB, mappedQFIs2Add, mappedQFIs2Release⟩

/-- The entities of a side after the configurations of some DRBs; `none` is a failed assertion. -/
def configure (isGnb : Bool) (ueId : ℕ) (cs : List (NrSdapConfig × ℤ)) :
    Option (List SdapEntity) :=
  cs.foldlM (fun l c => getConfig isGnb c.1 c.2 >>= addmodEntity isGnb ueId l) []

theorem pairedConfig_getConfig {c : NrSdapConfig} {drbId : ℤ} {s s' : SdapConfig}
    (h : getConfig false c drbId = some s) (h' : getConfig true c drbId = some s') :
    PairedConfig s s' := by
  simp only [getConfig, bind, Option.bind_eq_some_iff, pure, Option.some.injEq] at h h'
  obtain ⟨add, hadd, release, hrelease, rfl⟩ := h
  obtain ⟨add', hadd', release', hrelease', rfl⟩ := h'
  obtain rfl := Option.some.inj (hadd.symm.trans hadd')
  obtain rfl := Option.some.inj (hrelease.symm.trans hrelease')
  exact .intro ..

theorem pdusessionId_eq_of_pairedConfig {s s' : SdapConfig} (h : PairedConfig s s') :
    s'.pdusessionId = s.pdusessionId := by
  cases h
  rfl

/-- The same rules are added and released on both sides. -/
theorem Paired.update {s s' : SdapConfig} {ue' gnb' : SdapEntity} (h : Paired ue gnb)
    (hs : PairedConfig s s') (hue : ue.qfi2drbMapUpdate s = some ue')
    (hgnb : gnb.qfi2drbMapUpdate s' = some gnb') : Paired ue' gnb' := by
  constructor
  · rw [qfi2drbMapUpdate_frame (g := SdapEntity.enableSdap) (fun _ _ => rfl) (fun _ _ => rfl) hue,
      qfi2drbMapUpdate_frame (g := SdapEntity.enableSdap) (fun _ _ => rfl) (fun _ _ => rfl) hgnb]
    exact h.enableSdap
  · rw [qfi2drbMapUpdate_frame (g := SdapEntity.defaultDrb) (fun _ _ => rfl) (fun _ _ => rfl) hue,
      qfi2drbMapUpdate_frame (g := SdapEntity.defaultDrb) (fun _ _ => rfl) (fun _ _ => rfl) hgnb]
    exact h.defaultDrb
  · intro qfi
    rw [qfi2drbMapUpdate_table hue, qfi2drbMapUpdate_table hgnb]
    cases hs with
    | intro pdusessionId drbId ul dl defaultDRB add release =>
      simp only [SdapConfig.effect]
      split_ifs with hrelease hadd
      · exact .none
      · exact .some ul dl (Int.ne_of_gt hadd.2.1)
      · exact h.rule qfi

theorem paired_addEntity {s s' : SdapConfig} (hs : PairedConfig s s')
    (hue : addEntity false ueId s = some ue) (hgnb : addEntity true gnbUeId s' = some gnb) :
    Paired ue gnb := by
  rw [addEntity_eq_some hue, addEntity_eq_some hgnb]
  cases hs with
  | intro pdusessionId drbId ul dl defaultDRB add release =>
    constructor
    · rw [addQosFlowsToDrb_frame (g := SdapEntity.enableSdap) fun _ _ => rfl,
        addQosFlowsToDrb_frame (g := SdapEntity.enableSdap) fun _ _ => rfl]
      simp only [sdapRole_ne_noSdapHeader]
    · rw [addQosFlowsToDrb_frame (g := SdapEntity.defaultDrb) fun _ _ => rfl,
        addQosFlowsToDrb_frame (g := SdapEntity.defaultDrb) fun _ _ => rfl]
    · intro qfi
      rw [qfi2drbTable_addQosFlowsToDrb, qfi2drbTable_addQosFlowsToDrb]
      by_cases hadd : qfi ∈ add ∧ ValidDrb drbId
      · rw [if_pos hadd, if_pos hadd]
        exact .some ul dl (Int.ne_of_gt hadd.2.1)
      · rw [if_neg hadd, if_neg hadd]
        exact .none

/-! ### The list of entities -/

theorem isOf_addEntity {isGnb : Bool} (h : addEntity isGnb ueId sdap = some e)
    (pdusessionId : ℤ) :
    e.isOf ueId pdusessionId = decide (sdap.pdusessionId = pdusessionId) := by
  rw [addEntity_eq_some h, addQosFlowsToDrb_frame (g := isOf ueId pdusessionId) fun _ _ => rfl]
  simp [isOf]

/-- The entity of a session after it has been configured. -/
theorem getEntity_addmodEntity {isGnb : Bool} (h : addmodEntity isGnb ueId l sdap = some l')
    (pdusessionId : ℤ) :
    if pdusessionId = sdap.pdusessionId then
      match getEntity l ueId pdusessionId with
      | some e => ∃ e', e.qfi2drbMapUpdate sdap = some e' ∧
          getEntity l' ueId pdusessionId = some e'
      | none => ∃ e', addEntity isGnb ueId sdap = some e' ∧
          getEntity l' ueId pdusessionId = some e'
    else getEntity l' ueId pdusessionId = getEntity l ueId pdusessionId := by
  rw [addmodEntity] at h
  cases hget : getEntity l ueId sdap.pdusessionId with
  | some e =>
    rw [hget] at h
    obtain ⟨e', he', rfl⟩ := Option.map_eq_some_iff.mp h
    have hkey : ∀ p, e'.isOf ueId p = e.isOf ueId p := fun p =>
      qfi2drbMapUpdate_frame (g := isOf ueId p) (fun _ _ => rfl) (fun _ _ => rfl) he'
    rw [getEntity_replaceF hget hkey]
    split_ifs with hp
    · subst hp
      rw [hget]
      exact ⟨e', he', rfl⟩
    · rfl
  | none =>
    rw [hget] at h
    obtain ⟨e', he', rfl⟩ := Option.map_eq_some_iff.mp h
    split_ifs with hp
    · subst hp
      rw [hget]
      refine ⟨e', he', ?_⟩
      rw [getEntity, List.find?_cons_of_pos]
      rw [isOf_addEntity he']
      exact decide_eq_true rfl
    · rw [getEntity, List.find?_cons_of_neg]
      · rfl
      · rw [isOf_addEntity he']
        exact fun heq => hp (of_decide_eq_true heq).symm

/-- What one configuration does to a session, on both sides. -/
theorem pairedList_addmodEntity {ls lg ls' lg' : List SdapEntity} {s s' : SdapConfig}
    (h : ∀ p, Option.Rel Paired (getEntity ls ueId p) (getEntity lg gnbUeId p))
    (hs : PairedConfig s s') (hue : addmodEntity false ueId ls s = some ls')
    (hgnb : addmodEntity true gnbUeId lg s' = some lg') (pdusessionId : ℤ) :
    Option.Rel Paired (getEntity ls' ueId pdusessionId) (getEntity lg' gnbUeId pdusessionId) := by
  have hue := getEntity_addmodEntity hue pdusessionId
  have hgnb := getEntity_addmodEntity hgnb pdusessionId
  have hp := h pdusessionId
  rw [pdusessionId_eq_of_pairedConfig hs] at hgnb
  by_cases hsession : pdusessionId = s.pdusessionId
  · rw [if_pos hsession] at hue hgnb
    cases hl : getEntity ls ueId pdusessionId with
    | none =>
      cases hl' : getEntity lg gnbUeId pdusessionId with
      | none =>
        rw [hl] at hue
        rw [hl'] at hgnb
        obtain ⟨ue, hadd, hue⟩ := hue
        obtain ⟨gnb, hadd', hgnb⟩ := hgnb
        rw [hue, hgnb]
        exact .some (paired_addEntity hs hadd hadd')
      | some gnb =>
        rw [hl, hl'] at hp
        exact absurd hp nofun
    | some ue =>
      cases hl' : getEntity lg gnbUeId pdusessionId with
      | none =>
        rw [hl, hl'] at hp
        exact absurd hp nofun
      | some gnb =>
        rw [hl, hl'] at hp
        rw [hl] at hue
        rw [hl'] at hgnb
        obtain ⟨ue', hupdate, hue⟩ := hue
        obtain ⟨gnb', hupdate', hgnb⟩ := hgnb
        rw [hue, hgnb]
        cases hp with
        | some hpaired => exact .some (hpaired.update hs hupdate hupdate')
  · rw [if_neg hsession] at hue hgnb
    rw [hue, hgnb]
    exact hp

/-- The same configurations leave the same sessions on both sides, with paired entities. -/
theorem paired_configure {cs : List (NrSdapConfig × ℤ)} {ls lg : List SdapEntity}
    (hue : configure false ueId cs = some ls) (hgnb : configure true gnbUeId cs = some lg)
    (pdusessionId : ℤ) :
    Option.Rel Paired (getEntity ls ueId pdusessionId) (getEntity lg gnbUeId pdusessionId) := by
  have hrun : ∀ (cs : List (NrSdapConfig × ℤ)) (ls lg ls' lg' : List SdapEntity),
      (∀ p, Option.Rel Paired (getEntity ls ueId p) (getEntity lg gnbUeId p)) →
      cs.foldlM (fun l c => getConfig false c.1 c.2 >>= addmodEntity false ueId l) ls = some ls' →
      cs.foldlM (fun l c => getConfig true c.1 c.2 >>= addmodEntity true gnbUeId l) lg = some lg' →
      ∀ p, Option.Rel Paired (getEntity ls' ueId p) (getEntity lg' gnbUeId p) := by
    intro cs
    induction cs with
    | nil =>
      intro ls lg ls' lg' h hue hgnb
      obtain rfl := Option.some.inj hue
      obtain rfl := Option.some.inj hgnb
      exact h
    | cons c cs ih =>
      intro ls lg ls' lg' h hue hgnb
      obtain ⟨ls₁, hue₁, hue⟩ := Option.bind_eq_some_iff.mp (List.foldlM_cons.symm.trans hue)
      obtain ⟨lg₁, hgnb₁, hgnb⟩ := Option.bind_eq_some_iff.mp (List.foldlM_cons.symm.trans hgnb)
      obtain ⟨s, hs, hue₁⟩ := Option.bind_eq_some_iff.mp hue₁
      obtain ⟨s', hs', hgnb₁⟩ := Option.bind_eq_some_iff.mp hgnb₁
      exact ih ls₁ lg₁ ls' lg'
        (pairedList_addmodEntity h (pairedConfig_getConfig hs hs') hue₁ hgnb₁) hue hgnb
  exact hrun cs [] [] ls lg (fun _ => .none) hue hgnb pdusessionId

theorem paired_of_configure {cs : List (NrSdapConfig × ℤ)} {ls lg : List SdapEntity}
    (hls : configure false ueId cs = some ls) (hlg : configure true gnbUeId cs = some lg)
    (hue : getEntity ls ueId pdusessionId = some ue)
    (hgnb : getEntity lg gnbUeId pdusessionId = some gnb) : Paired ue gnb := by
  have hrel := paired_configure hls hlg pdusessionId
  rw [hue, hgnb] at hrel
  cases hrel with
  | some hpaired => exact hpaired

/-! ### Transmission and reception -/

/-- A side adds a header for uplink to the SDUs of a flow. -/
def AddsUlHeader (e : SdapEntity) (qfi : Qfi) : Prop :=
  (e.qfi2drbTable qfi).entityRole &&& sdapUlTx ≠ 0

/-- A side adds a header for downlink to the SDUs of a flow. -/
def AddsDlHeader (e : SdapEntity) (qfi : Qfi) : Prop :=
  (e.qfi2drbTable qfi).entityRole &&& sdapDlTx ≠ 0

/-- An SDU of the UE is handed to GTP-U as it is, with the QFI of its flow if its DRB has a header
for uplink. -/
def DeliversUplink (ue gnb : SdapEntity) (ulHeader : Bool) (sdu : List UInt8) (qfi : Qfi)
    (rqi : Bool) : Prop :=
  ∃ drbId pdu, ue.txEntity sdu qfi rqi = some (drbId, pdu) ∧
    ∃ mark, (gnb.rxEntity drbId true pdu).2 = .toGtp mark sdu ∧
      (ulHeader = true → mark = some qfi)

/-- An SDU of the gNB is handed to the network interface of the UE as it is. -/
def DeliversDownlink (ue gnb : SdapEntity) (sdu : List UInt8) (qfi : Qfi) (rqi : Bool) : Prop :=
  ∃ drbId pdu, gnb.txEntity sdu qfi rqi = some (drbId, pdu) ∧
    (ue.rxEntity drbId false pdu).2 = .toTun sdu

theorem PairedRule.flags {r r' : Qfi2Drb} (h : PairedRule r r') :
    ∃ ul dl, r'.drbId = r.drbId ∧ (r.drbId = 0 → ul = false ∧ dl = false) ∧
      r.entityRole = sdapRole false ul dl ∧ r'.entityRole = sdapRole true ul dl := by
  cases h with
  | none => exact ⟨false, false, rfl, fun _ => ⟨rfl, rfl⟩, rfl, rfl⟩
  | some ul dl hdrb => exact ⟨ul, dl, rfl, fun hzero => absurd hzero hdrb, rfl, rfl⟩

theorem rxEntity_disabled (h : e.enableSdap = false) (drbId : ℤ) (isGnb : Bool)
    (buf : List UInt8) :
    (e.rxEntity drbId isGnb buf).2 = if isGnb then .toGtp none buf else .toTun buf := by
  cases isGnb <;> simp [rxEntity, h]

theorem rxEntity_gnb (h : e.enableSdap = true) (drbId : ℤ) (buf : List UInt8) :
    (e.rxEntity drbId true buf).2 =
      if (e.qfi2drbTable (hdrQfi (buf.headD 0))).drbId = 0 then .dropped
      else if (e.qfi2drbTable (hdrQfi (buf.headD 0))).entityRole &&& sdapUlRx ≠ 0 then
        .toGtp (some (hdrQfi (buf.headD 0))) (buf.drop sdapHdrLength)
      else .assertionFailed := by
  rw [rxEntity]
  simp only [h, true_and]
  split_ifs <;> rfl

theorem rxEntity_ue (h : e.enableSdap = true) (drbId : ℤ) (buf : List UInt8) :
    (e.rxEntity drbId false buf).2 =
      if (e.qfi2drbTable (hdrQfi (buf.headD 0))).drbId = 0 then .dropped
      else if (e.qfi2drbTable (hdrQfi (buf.headD 0))).entityRole &&& sdapDlRx ≠ 0 then
        .toTun (buf.drop sdapHdrLength)
      else .toTun buf := by
  rw [rxEntity]
  simp only [h, true_and]
  split_ifs <;> first | rfl | contradiction

/-- The UE sends a PDU with a header or without one. -/
theorem Paired.txEntity_ue (h : Paired ue gnb) (hdrb : ue.qfi2drb qfi ≠ 0) (hpos : 0 < sdu.length)
    (hle : sdu.length ≤ 8999) (rqi : Bool) :
    ue.txEntity sdu qfi rqi =
      some (ue.qfi2drb qfi, if (ue.qfi2drbTable qfi).entityRole &&& sdapUlTx ≠ 0 then
        ulHdr qfi false rqi :: sdu else sdu) := by
  obtain ⟨ul, dl, -, -, hrole, -⟩ := (h.rule qfi).flags
  have hdl : ¬ (ue.qfi2drbTable qfi).entityRole &&& sdapDlTx ≠ 0 := by
    rw [hrole, sdapRole_and_sdapDlTx]
    exact fun hgnb => Bool.noConfusion hgnb.1
  rw [txEntity, if_neg hdrb]
  by_cases hul : (ue.qfi2drbTable qfi).entityRole &&& sdapUlTx ≠ 0
  · rw [if_neg fun hnone => hnone.1 hul, if_neg (by omega), if_neg hdl, if_pos hul]
  · rw [if_pos ⟨hul, hdl⟩, if_neg hul]

/-- The gNB sends a PDU with a header or without one. -/
theorem Paired.txEntity_gnb (h : Paired ue gnb) (hdrb : gnb.qfi2drb qfi ≠ 0)
    (hpos : 0 < sdu.length) (hle : sdu.length ≤ 8999) (rqi : Bool) :
    gnb.txEntity sdu qfi rqi =
      some (gnb.qfi2drb qfi, if (gnb.qfi2drbTable qfi).entityRole &&& sdapDlTx ≠ 0 then
        dlHdr qfi rqi false :: sdu else sdu) := by
  obtain ⟨ul, dl, -, -, -, hrole⟩ := (h.rule qfi).flags
  have hul : ¬ (gnb.qfi2drbTable qfi).entityRole &&& sdapUlTx ≠ 0 := by
    rw [hrole, sdapRole_and_sdapUlTx]
    exact fun hgnb => Bool.noConfusion hgnb.1
  rw [txEntity, if_neg hdrb]
  by_cases hdl : (gnb.qfi2drbTable qfi).entityRole &&& sdapDlTx ≠ 0
  · rw [if_neg fun hnone => hnone.2 hdl, if_neg (by omega), if_pos hdl, if_pos hdl]
  · rw [if_pos ⟨hul, hdl⟩, if_neg hdl]

/-- A header is not part of an SDU. -/
theorem drop_sdapHdrLength_ne (hpos : 0 < sdu.length) : sdu.drop sdapHdrLength ≠ sdu := by
  intro heq
  have hlen := congrArg List.length heq
  rw [List.length_drop, sdapHdrLength] at hlen
  omega

/-- An SDU arrives in uplink if it has a header and the gNB looks for one, or if it has none, none
is configured, and the gNB looks for none. -/
theorem Paired.deliversUplink_iff (h : Paired ue gnb) (hdrb : ue.qfi2drb qfi ≠ 0)
    (hpos : 0 < sdu.length) (hle : sdu.length ≤ 8999) (ulHeader rqi : Bool) :
    DeliversUplink ue gnb ulHeader sdu qfi rqi ↔
      AddsUlHeader ue qfi ∧ gnb.enableSdap = true ∨
        ¬ AddsUlHeader ue qfi ∧ gnb.enableSdap = false ∧ ulHeader = false := by
  obtain ⟨ul, dl, hsame, hzero, hrole, hrole'⟩ := (h.rule qfi).flags
  rw [DeliversUplink, h.txEntity_ue hdrb hpos hle, AddsUlHeader]
  simp only [Option.some.injEq, Prod.mk.injEq, existsAndEq, true_and]
  by_cases hul : (ue.qfi2drbTable qfi).entityRole &&& sdapUlTx ≠ 0
  · have hul' : ul = true := ((sdapRole_and_sdapUlTx ..).mp (hrole ▸ hul)).2
    rw [if_pos hul]
    cases henable : gnb.enableSdap with
    | true =>
      rw [rxEntity_gnb henable, List.headD_cons, hdrQfi_ulHdr, if_neg, if_pos]
      · simp [hul, sdapHdrLength]
      · rw [hrole', sdapRole_and_sdapUlRx]
        exact ⟨rfl, hul'⟩
      · rw [hsame]
        exact fun hnone => Bool.noConfusion (hul'.symm.trans (hzero hnone).1)
    | false =>
      rw [rxEntity_disabled henable]
      simp [hul]
  · rw [if_neg hul]
    cases henable : gnb.enableSdap with
    | true =>
      rw [rxEntity_gnb henable]
      have hdrop := drop_sdapHdrLength_ne hpos
      split_ifs <;> simp [hul, hdrop]
    | false =>
      rw [rxEntity_disabled henable]
      simp [hul]

/-- An SDU arrives in downlink if it has a header and the UE looks for one, or if it has none, and
the UE looks for none or mistakes its first byte for the header of a flow without one. -/
theorem Paired.deliversDownlink_iff (h : Paired ue gnb) (hdrb : gnb.qfi2drb qfi ≠ 0)
    (hpos : 0 < sdu.length) (hle : sdu.length ≤ 8999) (rqi : Bool) :
    DeliversDownlink ue gnb sdu qfi rqi ↔
      AddsDlHeader gnb qfi ∧ ue.enableSdap = true ∨
        ¬ AddsDlHeader gnb qfi ∧ (ue.enableSdap = false ∨
          (ue.qfi2drbTable (hdrQfi (sdu.headD 0))).drbId ≠ 0 ∧
            ¬ AddsDlHeader gnb (hdrQfi (sdu.headD 0))) := by
  obtain ⟨ul, dl, -, hzero, hrole, hrole'⟩ := (h.rule qfi).flags
  rw [DeliversDownlink, h.txEntity_gnb hdrb hpos hle, AddsDlHeader]
  simp only [Option.some.injEq, Prod.mk.injEq, existsAndEq, true_and]
  by_cases hdl : (gnb.qfi2drbTable qfi).entityRole &&& sdapDlTx ≠ 0
  · have hdl' : dl = true := ((sdapRole_and_sdapDlTx ..).mp (hrole' ▸ hdl)).2
    rw [if_pos hdl]
    cases henable : ue.enableSdap with
    | true =>
      rw [rxEntity_ue henable, List.headD_cons, hdrQfi_dlHdr, if_neg, if_pos]
      · simp [hdl, sdapHdrLength]
      · rw [hrole, sdapRole_and_sdapDlRx]
        exact ⟨rfl, hdl'⟩
      · exact fun hnone => Bool.noConfusion (hdl'.symm.trans (hzero hnone).2)
    | false =>
      rw [rxEntity_disabled henable]
      simp [hdl]
  · rw [if_neg hdl]
    cases henable : ue.enableSdap with
    | true =>
      -- the UE takes the first byte of the SDU for a header
      obtain ⟨ul', dl', -, -, hfirst, hfirst'⟩ := (h.rule (hdrQfi (sdu.headD 0))).flags
      have hflag : AddsDlHeader gnb (hdrQfi (sdu.headD 0)) ↔
          (ue.qfi2drbTable (hdrQfi (sdu.headD 0))).entityRole &&& sdapDlRx ≠ 0 := by
        rw [AddsDlHeader, hfirst, hfirst', sdapRole_and_sdapDlTx, sdapRole_and_sdapDlRx]
        exact and_congr_left fun _ => iff_of_true rfl rfl
      have hdrop := drop_sdapHdrLength_ne hpos
      rw [rxEntity_ue henable, hflag]
      generalize hdrQfi (sdu.headD 0) = first
      split_ifs with hnone hheader
      · simp [hdl, hnone]
      · simp [hdl, hheader, hdrop]
      · simp [hdl, hnone, hheader]
    | false =>
      rw [rxEntity_disabled henable]
      simp [hdl]

/-! ### Sessions -/

/-- When an SDU of a flow that is mapped to a DRB arrives, whatever has been configured in the
session before that DRB. -/
theorem delivers_iff (cs : List (NrSdapConfig × ℤ)) (c : NrSdapConfig) (drbId : ℤ)
    (hls : configure false ueId (cs ++ [(c, drbId)]) = some l)
    (hlg : configure true gnbUeId (cs ++ [(c, drbId)]) = some l')
    (hue : getEntity l ueId c.pduSession = some ue)
    (hgnb : getEntity l' gnbUeId c.pduSession = some gnb) (hdrb : drbId ≠ 0)
    (hpos : 0 < sdu.length) (hle : sdu.length ≤ 8999) :
    (ue.qfi2drb qfi = drbId →
      (DeliversUplink ue gnb c.sdapHeaderUL sdu qfi rqi ↔
        AddsUlHeader ue qfi ∧ gnb.enableSdap = true ∨
          ¬ AddsUlHeader ue qfi ∧ gnb.enableSdap = false ∧ c.sdapHeaderUL = false)) ∧
      (gnb.qfi2drb qfi = drbId →
        (DeliversDownlink ue gnb sdu qfi rqi ↔
          AddsDlHeader gnb qfi ∧ ue.enableSdap = true ∨
            ¬ AddsDlHeader gnb qfi ∧ (ue.enableSdap = false ∨
              (ue.qfi2drbTable (hdrQfi (sdu.headD 0))).drbId ≠ 0 ∧
                ¬ AddsDlHeader gnb (hdrQfi (sdu.headD 0))))) := by
  have hpaired := paired_of_configure hls hlg hue hgnb
  constructor
  · intro hmapped
    exact hpaired.deliversUplink_iff (hmapped ▸ hdrb) hpos hle c.sdapHeaderUL rqi
  · intro hmapped
    exact hpaired.deliversDownlink_iff (hmapped ▸ hdrb) hpos hle rqi

/-- SDAP works from end to end: SDUs of all flows that are mapped to a DRB arrive. -/
def WorksEndToEnd : Prop :=
  ∀ (ueId gnbUeId : ℕ) (c : NrSdapConfig) (drbId : ℤ) (l l' : List SdapEntity)
    (ue gnb : SdapEntity), ValidDrb drbId →
    configure false ueId [(c, drbId)] = some l → configure true gnbUeId [(c, drbId)] = some l' →
    getEntity l ueId c.pduSession = some ue → getEntity l' gnbUeId c.pduSession = some gnb →
    ∀ (qfi : Qfi) (sdu : List UInt8) (rqi : Bool), 0 < sdu.length → sdu.length ≤ 8999 →
      (ue.qfi2drb qfi = drbId → DeliversUplink ue gnb c.sdapHeaderUL sdu qfi rqi) ∧
      (gnb.qfi2drb qfi = drbId → DeliversDownlink ue gnb sdu qfi rqi)

def flowConfig (ul dl : Bool) : NrSdapConfig := ⟨1, dl, ul, false, some [⟨5, by decide⟩], none⟩

/-- The entity of a side for this configuration. -/
def flowEntity (isGnb ul dl : Bool) : SdapEntity :=
  ⟨1, 1, isGnb, sdapRole isGnb ul dl ≠ noSdapHeader, 0,
    Function.update (fun _ => noMappingRule) ⟨5, by decide⟩ ⟨1, sdapRole isGnb ul dl⟩, []⟩

theorem configure_flowConfig (isGnb ul dl : Bool) :
    configure isGnb 1 [(flowConfig ul dl, 1)] = some [flowEntity isGnb ul dl] := by
  cases isGnb <;> cases ul <;> cases dl <;> rfl

/-- With both headers an SDU of the flow arrives. -/
theorem delivers_flowConfig :
    DeliversUplink (flowEntity false true true) (flowEntity true true true) true [7] 5 true :=
  ((delivers_iff [] (flowConfig true true) 1 (configure_flowConfig false true true)
    (configure_flowConfig true true true) rfl rfl (by decide) (by decide) (by decide)).1 rfl).mpr
      (.inl ⟨by unfold AddsUlHeader; decide, rfl⟩)

/-- With the header for downlink only, the gNB looks for a QFI in a PDU of the UE that has none, and
an assertion fails. -/
theorem not_worksEndToEnd : ¬ WorksEndToEnd := by
  intro h
  have huplink := (h 1 1 (flowConfig false true) 1 _ _ _ _ (by decide)
    (configure_flowConfig false false true) (configure_flowConfig true false true) rfl rfl
    5 [5] true (by decide) (by decide)).1 rfl
  obtain ⟨drbId, pdu, htx, mark, hrx, -⟩ := huplink
  have hsent : (flowEntity false false true).txEntity [5] 5 true = some (1, [5]) := by decide
  obtain ⟨rfl, rfl⟩ := Prod.mk.inj (Option.some.inj (hsent.symm.trans htx))
  have hfailed : ((flowEntity true false true).rxEntity 1 true [5]).2 = .assertionFailed := by
    decide
  exact RxOutcome.noConfusion (hfailed.symm.trans hrx)

end LlmHric.Sdap
