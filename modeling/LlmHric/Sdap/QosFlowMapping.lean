import LlmHric.Sdap.SdapEntity
import Mathlib.Data.List.Induction
import Mathlib.Data.List.Nodup
import Mathlib.Data.List.Perm.Basic

/-! A configuration adds QoS flows to its DRB and releases others. A release acts on the flow,
whatever DRB it is mapped to at that moment: a flow that moves from one DRB to another loses its
rule if the new DRB is configured before the old one. -/

namespace LlmHric.Sdap

variable {e e' : SdapEntity} {sdap : SdapConfig} {qfi : Qfi} {cs : List SdapConfig}

namespace SdapEntity

/-! ### One configuration -/

@[simp] theorem qfi2drbTable_submitCtrlPdu (drb : ℤ) :
    (e.submitCtrlPdu drb qfi).qfi2drbTable = e.qfi2drbTable := by
  rw [submitCtrlPdu]
  split_ifs <;> rfl

@[simp] theorem qfi2drbTable_ueControlPdu :
    (ueControlPdu sdap e qfi).qfi2drbTable = e.qfi2drbTable := by
  rw [ueControlPdu]
  split_ifs <;> simp

@[simp] theorem qfi2drbTable_ueControlPduConfig :
    (e.ueControlPduConfig sdap).qfi2drbTable = e.qfi2drbTable := by
  rw [ueControlPduConfig]
  induction sdap.mappedQFIs2Add generalizing e with
  | nil => rfl
  | cons q l ih => exact ih.trans qfi2drbTable_ueControlPdu

/-- The DRB of a configuration is one that rules can be added for. -/
def ValidDrb (drbId : ℤ) : Prop := drbId > 0 ∧ drbId ≤ maxDrbsPerUe

instance (drbId : ℤ) : Decidable (ValidDrb drbId) := inferInstanceAs (Decidable (_ ∧ _))

theorem qfi2drbTable_addQosFlowsToDrb (e : SdapEntity) (sdap : SdapConfig) (qfi : Qfi) :
    (e.addQosFlowsToDrb sdap).qfi2drbTable qfi =
      if qfi ∈ sdap.mappedQFIs2Add ∧ ValidDrb sdap.drbId then ⟨sdap.drbId, sdap.role⟩
      else e.qfi2drbTable qfi := by
  rw [addQosFlowsToDrb]
  induction sdap.mappedQFIs2Add generalizing e with
  | nil => simp
  | cons q l ih =>
    rw [List.foldl_cons, ih]
    by_cases hvalid : ValidDrb sdap.drbId
    · rw [if_pos (c := sdap.drbId > 0 ∧ sdap.drbId ≤ maxDrbsPerUe) hvalid]
      by_cases hq : qfi = q
      · subst hq
        simp [hvalid, qfi2drbMapAdd]
      · simp [hvalid, qfi2drbMapAdd, hq]
    · rw [if_neg (c := sdap.drbId > 0 ∧ sdap.drbId ≤ maxDrbsPerUe) hvalid]
      simp [hvalid]

theorem qfi2drbTable_rmQosFlowsFromDrb (e : SdapEntity) (sdap : SdapConfig) (qfi : Qfi) :
    (e.rmQosFlowsFromDrb sdap).qfi2drbTable qfi =
      if qfi ∈ sdap.mappedQFIs2Release then noMappingRule else e.qfi2drbTable qfi := by
  rw [rmQosFlowsFromDrb]
  induction sdap.mappedQFIs2Release generalizing e with
  | nil => simp
  | cons q l ih =>
    rw [List.foldl_cons, ih]
    by_cases hq : qfi = q
    · subst hq
      simp [qfi2drbMapDel]
    · simp [qfi2drbMapDel, hq]

end SdapEntity

open SdapEntity

/-- The rule that a configuration leaves, if it has something to say about a flow. -/
def SdapConfig.effect (sdap : SdapConfig) (qfi : Qfi) : Option Qfi2Drb :=
  if qfi ∈ sdap.mappedQFIs2Release then some noMappingRule
  else if qfi ∈ sdap.mappedQFIs2Add ∧ ValidDrb sdap.drbId then some ⟨sdap.drbId, sdap.role⟩
  else none

namespace SdapEntity

/-- What no part of a configuration changes. -/
theorem qfi2drbMapUpdate_frame {α : Type*} {g : SdapEntity → α}
    (htable : ∀ (e : SdapEntity) qfi2drbTable, g { e with qfi2drbTable } = g e)
    (hsubmitted : ∀ (e : SdapEntity) submitted, g { e with submitted } = g e)
    (h : e.qfi2drbMapUpdate sdap = some e') : g e' = g e := by
  have hsubmit : ∀ (e : SdapEntity) drb qfi, g (e.submitCtrlPdu drb qfi) = g e := by
    intro e drb qfi
    rw [submitCtrlPdu]
    split_ifs
    · exact hsubmitted _ _
    · rfl
  have hfold : ∀ (f : SdapEntity → Qfi → SdapEntity) (l : List Qfi),
      (∀ e q, g (f e q) = g e) → ∀ e, g (l.foldl f e) = g e := by
    intro f l hf
    induction l with
    | nil => exact fun _ => rfl
    | cons q l ih => exact fun e => (ih _).trans (hf e q)
  have hcontrol : ∀ e : SdapEntity, g (e.ueControlPduConfig sdap) = g e := by
    apply hfold
    intro e q
    rw [ueControlPdu]
    split_ifs
    · exact (hsubmit _ _ _).trans (hsubmit _ _ _)
    · exact hsubmit _ _ _
    · exact hsubmit _ _ _
    · rfl
  have hadd : ∀ e : SdapEntity, g (e.addQosFlowsToDrb sdap) = g e := by
    apply hfold
    intro e q
    split_ifs
    · exact htable _ _
    · rfl
  have hrm : ∀ e : SdapEntity, g (e.rmQosFlowsFromDrb sdap) = g e :=
    hfold _ _ fun e q => htable _ _
  rw [qfi2drbMapUpdate] at h
  split_ifs at h with _ hgnb
  · obtain rfl := Option.some.inj h
    exact (hrm _).trans (hadd _)
  · obtain rfl := Option.some.inj h
    exact (hrm _).trans ((hadd _).trans (hcontrol _))

theorem qfi2drbMapUpdate_table (h : e.qfi2drbMapUpdate sdap = some e') (qfi : Qfi) :
    e'.qfi2drbTable qfi = (sdap.effect qfi).getD (e.qfi2drbTable qfi) := by
  have htable : e'.qfi2drbTable qfi =
      ((e.addQosFlowsToDrb sdap).rmQosFlowsFromDrb sdap).qfi2drbTable qfi := by
    rw [qfi2drbMapUpdate] at h
    split_ifs at h
    · obtain rfl := Option.some.inj h
      rfl
    · obtain rfl := Option.some.inj h
      simp only [qfi2drbTable_rmQosFlowsFromDrb, qfi2drbTable_addQosFlowsToDrb,
        qfi2drbTable_ueControlPduConfig]
  rw [htable, qfi2drbTable_rmQosFlowsFromDrb, qfi2drbTable_addQosFlowsToDrb, SdapConfig.effect]
  split_ifs <;> rfl

/-- An entity with headers accepts every configuration. -/
theorem exists_qfi2drbMapUpdate (h : e.enableSdap = true) (sdap : SdapConfig) :
    ∃ e', e.qfi2drbMapUpdate sdap = some e' := by
  rw [qfi2drbMapUpdate, if_neg]
  · exact ⟨_, rfl⟩
  · rw [h]
    exact fun hdisabled => Bool.noConfusion hdisabled.1

def ruleAfter (rule : Qfi2Drb) (qfi : Qfi) (cs : List SdapConfig) : Qfi2Drb :=
  cs.foldl (fun rule sdap => (sdap.effect qfi).getD rule) rule

theorem updates_table (h : e.enableSdap = true) (cs : List SdapConfig) :
    ∃ e', cs.foldlM qfi2drbMapUpdate e = some e' ∧
      ∀ qfi, e'.qfi2drbTable qfi = ruleAfter (e.qfi2drbTable qfi) qfi cs := by
  induction cs generalizing e with
  | nil => exact ⟨e, rfl, fun _ => rfl⟩
  | cons sdap cs ih =>
    obtain ⟨e₁, he₁⟩ := exists_qfi2drbMapUpdate h sdap
    have henabled : e₁.enableSdap = true :=
      (qfi2drbMapUpdate_frame (g := enableSdap) (fun _ _ => rfl) (fun _ _ => rfl) he₁).trans h
    obtain ⟨e', he', htable⟩ := ih henabled
    refine ⟨e', ?_, fun qfi => ?_⟩
    · rw [List.foldlM_cons, he₁]
      exact he'
    · rw [htable, qfi2drbMapUpdate_table he₁]
      rfl

/-- The last configuration has the last word. -/
theorem ruleAfter_concat (rule : Qfi2Drb) (qfi : Qfi) (cs : List SdapConfig) (sdap : SdapConfig) :
    ruleAfter rule qfi (cs ++ [sdap]) = (sdap.effect qfi).getD (ruleAfter rule qfi cs) :=
  List.foldl_concat ..

/-- Configurations that have nothing to say about a flow. -/
theorem ruleAfter_of_none {rule : Qfi2Drb} (h : ∀ sdap ∈ cs, sdap.effect qfi = none) :
    ruleAfter rule qfi cs = rule := by
  induction cs using List.reverseRecOn with
  | nil => rfl
  | append_singleton cs sdap ih =>
    rw [ruleAfter_concat, h sdap List.mem_concat_self]
    exact ih fun c hc => h c (List.mem_append_left _ hc)

/-- Configurations that agree about a flow. -/
theorem ruleAfter_of_agree {rule value : Qfi2Drb}
    (h : ∀ sdap ∈ cs, sdap.effect qfi = none ∨ sdap.effect qfi = some value)
    (hsome : ∃ sdap ∈ cs, sdap.effect qfi = some value) : ruleAfter rule qfi cs = value := by
  induction cs using List.reverseRecOn with
  | nil =>
    obtain ⟨sdap, hsdap, -⟩ := hsome
    exact absurd hsdap List.not_mem_nil
  | append_singleton cs sdap ih =>
    rw [ruleAfter_concat]
    rcases h sdap List.mem_concat_self with hnone | hvalue
    · rw [hnone]
      apply ih fun c hc => h c (List.mem_append_left _ hc)
      obtain ⟨c, hc, heffect⟩ := hsome
      rcases List.mem_append.mp hc with hc | hc
      · exact ⟨c, hc, heffect⟩
      · obtain rfl := List.mem_singleton.mp hc
        exact absurd (hnone.symm.trans heffect) (Option.some_ne_none _).symm
    · rw [hvalue]
      rfl

end SdapEntity

/-! ### Reconfigurations -/

/-- Configurations of different DRBs that belong together: a flow is added to one DRB, and released
from the one it was mapped to. -/
structure Reconfiguration (e : SdapEntity) (cs : List SdapConfig) : Prop where
  distinct : (cs.map (·.drbId)).Nodup
  validDrb : ∀ c ∈ cs, ValidDrb c.drbId
  added : ∀ c ∈ cs, ∀ c' ∈ cs, ∀ qfi ∈ c.mappedQFIs2Add, qfi ∈ c'.mappedQFIs2Add →
    c.drbId = c'.drbId
  released : ∀ c ∈ cs, ∀ qfi ∈ c.mappedQFIs2Release, (e.qfi2drbTable qfi).drbId = c.drbId

/-- In any order the configurations leave the same rules: flows that are added are mapped to their
DRB, flows that are only released are not mapped. -/
def RemapsInAnyOrder (e : SdapEntity) (cs : List SdapConfig) : Prop :=
  ∃ table : Qfi → Qfi2Drb,
    (∀ cs' : List SdapConfig, cs'.Perm cs → ∃ e', cs'.foldlM qfi2drbMapUpdate e = some e' ∧
      e'.qfi2drbTable = table) ∧
    (∀ c ∈ cs, ∀ qfi ∈ c.mappedQFIs2Add, (table qfi).drbId = c.drbId) ∧
    ∀ c ∈ cs, ∀ qfi ∈ c.mappedQFIs2Release, (∀ c' ∈ cs, qfi ∉ c'.mappedQFIs2Add) →
      (table qfi).drbId = 0

/-- Every reconfiguration can be applied in any order. -/
def RemapsOrderIndependently : Prop :=
  ∀ e cs, e.enableSdap = true → Reconfiguration e cs → RemapsInAnyOrder e cs

/-- Configurations of different DRBs. -/
theorem Reconfiguration.eq_of_drbId_eq (h : Reconfiguration e cs) {c c' : SdapConfig} (hc : c ∈ cs)
    (hc' : c' ∈ cs) (hdrb : c.drbId = c'.drbId) : c = c' :=
  List.inj_on_of_nodup_map h.distinct hc hc' hdrb

/-- Without flows that move, each flow has its rule. -/
theorem Reconfiguration.exists_rule (h : Reconfiguration e cs)
    (hmoves : ∀ c ∈ cs, ∀ c' ∈ cs, ∀ qfi ∈ c.mappedQFIs2Add, qfi ∉ c'.mappedQFIs2Release)
    (rule : Qfi2Drb) (qfi : Qfi) :
    ∃ value : Qfi2Drb, (∀ cs' : List SdapConfig, cs'.Perm cs → ruleAfter rule qfi cs' = value) ∧
      (∀ c ∈ cs, qfi ∈ c.mappedQFIs2Add → value.drbId = c.drbId) ∧
      ∀ c ∈ cs, qfi ∈ c.mappedQFIs2Release → (∀ c' ∈ cs, qfi ∉ c'.mappedQFIs2Add) →
        value.drbId = 0 := by
  by_cases hadded : ∃ c ∈ cs, qfi ∈ c.mappedQFIs2Add
  · obtain ⟨c, hc, hadd⟩ := hadded
    have hagree : ∀ c' ∈ cs, c'.effect qfi = none ∨ c'.effect qfi = some ⟨c.drbId, c.role⟩ := by
      intro c' hc'
      rw [SdapConfig.effect, if_neg (hmoves c hc c' hc' qfi hadd)]
      split_ifs with hadd'
      · right
        rw [h.eq_of_drbId_eq hc' hc (h.added c' hc' c hc qfi hadd'.1 hadd)]
      · exact .inl rfl
    have heffect : c.effect qfi = some ⟨c.drbId, c.role⟩ := by
      rw [SdapConfig.effect, if_neg (hmoves c hc c hc qfi hadd), if_pos ⟨hadd, h.validDrb c hc⟩]
    refine ⟨⟨c.drbId, c.role⟩, fun cs' hperm => ?_, fun c' hc' hadd' => ?_, ?_⟩
    · apply ruleAfter_of_agree
      · exact fun c' hc' => hagree c' (hperm.mem_iff.mp hc')
      · exact ⟨c, hperm.mem_iff.mpr hc, heffect⟩
    · exact h.added c hc c' hc' qfi hadd hadd'
    · exact fun c' hc' _ hnone => absurd hadd (hnone c hc)
  · have hnone : ∀ c ∈ cs, qfi ∉ c.mappedQFIs2Add := fun c hc hadd => hadded ⟨c, hc, hadd⟩
    have heffect : ∀ c ∈ cs, c.effect qfi =
        if qfi ∈ c.mappedQFIs2Release then some noMappingRule else none := by
      intro c hc
      rw [SdapConfig.effect, if_neg (c := _ ∧ _) fun hadd => hnone c hc hadd.1]
    by_cases hreleased : ∃ c ∈ cs, qfi ∈ c.mappedQFIs2Release
    · obtain ⟨c, hc, hrelease⟩ := hreleased
      refine ⟨noMappingRule, fun cs' hperm => ?_, fun c hc hadd => absurd hadd (hnone c hc), ?_⟩
      · apply ruleAfter_of_agree
        · intro c' hc'
          rw [heffect c' (hperm.mem_iff.mp hc')]
          split_ifs
          · exact .inr rfl
          · exact .inl rfl
        · exact ⟨c, hperm.mem_iff.mpr hc, by rw [heffect c hc, if_pos hrelease]⟩
      · exact fun _ _ _ _ => rfl
    · refine ⟨rule, fun cs' hperm => ?_, fun c hc hadd => absurd hadd (hnone c hc), ?_⟩
      · apply ruleAfter_of_none
        intro c hc
        have hc := hperm.mem_iff.mp hc
        rw [heffect c hc, if_neg fun hrelease => hreleased ⟨c, hc, hrelease⟩]
      · exact fun c hc hrelease _ => absurd ⟨c, hc, hrelease⟩ hreleased

/-- A reconfiguration can be applied in any order exactly when none of its configurations adds a
flow that one of them releases. -/
theorem remapsInAnyOrder_iff (e : SdapEntity) (cs : List SdapConfig) (henable : e.enableSdap = true)
    (h : Reconfiguration e cs) :
    RemapsInAnyOrder e cs ↔
      ∀ c ∈ cs, ∀ c' ∈ cs, ∀ qfi ∈ c.mappedQFIs2Add, qfi ∉ c'.mappedQFIs2Release := by
  constructor
  · rintro ⟨table, horder, hadd, -⟩ c hc c' hc' qfi hq hrelease
    -- the configuration that releases the flow comes last
    obtain ⟨pre, post, rfl⟩ := List.append_of_mem hc'
    have hperm : (pre ++ post ++ [c']).Perm (pre ++ c' :: post) := by
      apply (List.perm_append_singleton c' (pre ++ post)).trans
      exact List.perm_middle.symm
    obtain ⟨e', he', rfl⟩ := horder _ hperm
    obtain ⟨e'', he'', htable⟩ := updates_table henable (pre ++ post ++ [c'])
    obtain rfl := Option.some.inj (he'.symm.trans he'')
    have hzero : (e'.qfi2drbTable qfi).drbId = 0 := by
      rw [htable, ruleAfter_concat, SdapConfig.effect, if_pos hrelease]
      rfl
    have hpos := (h.validDrb c hc).1
    rw [hadd c hc qfi hq] at hzero
    omega
  · intro hmoves
    choose table horder hadd hrelease using
      fun qfi => h.exists_rule hmoves (e.qfi2drbTable qfi) qfi
    refine ⟨table, fun cs' hperm => ?_, fun c hc qfi => hadd qfi c hc,
      fun c hc qfi => hrelease qfi c hc⟩
    obtain ⟨e', he', htable⟩ := updates_table henable cs'
    refine ⟨e', he', ?_⟩
    ext1 qfi
    rw [htable, horder qfi cs' hperm]

/-- There is a flow 5. -/
theorem five_lt : 5 < 64 := by decide

/-- The entity of a PDU session whose flow 5 is mapped to DRB 1, with both headers. -/
def sessionEntity : SdapEntity :=
  ⟨1, 1, true, true, 0, Function.update (fun _ => noMappingRule) ⟨5, five_lt⟩
    ⟨1, sdapUlRx ||| sdapDlTx⟩, []⟩

/-- Flow 5 is released, and flow 6 is added. -/
def replaceFlow : List SdapConfig :=
  [⟨1, 1, sdapUlRx ||| sdapDlTx, false, [⟨6, by decide⟩], [⟨5, five_lt⟩]⟩]

theorem remapsInAnyOrder_replaceFlow : RemapsInAnyOrder sessionEntity replaceFlow := by
  apply (remapsInAnyOrder_iff sessionEntity replaceFlow rfl _).mpr
  · decide
  · refine ⟨by decide, by decide, by decide, ?_⟩
    unfold replaceFlow
    decide

/-- Flow 5 moves from DRB 1 to DRB 2. -/
def moveFlow : List SdapConfig :=
  [⟨1, 1, sdapUlRx ||| sdapDlTx, false, [], [⟨5, five_lt⟩]⟩,
    ⟨1, 2, sdapUlRx ||| sdapDlTx, false, [⟨5, five_lt⟩], []⟩]

/-- If DRB 2 is configured first, flow 5 is not mapped in the end. -/
theorem not_remapsOrderIndependently : ¬ RemapsOrderIndependently := by
  intro h
  obtain ⟨table, horder, hadded, -⟩ := h sessionEntity moveFlow rfl
    ⟨by decide, by decide, by decide, by decide⟩
  obtain ⟨e', he', rfl⟩ := horder moveFlow.reverse (List.reverse_perm _)
  have hdrb := hadded _ (List.mem_cons_of_mem _ (List.mem_singleton_self _)) 5
    (List.mem_singleton_self _)
  have hzero : (moveFlow.reverse.foldlM qfi2drbMapUpdate sessionEntity).map
      (fun e => (e.qfi2drbTable 5).drbId) = some 0 := by
    decide
  rw [he'] at hzero
  rw [Option.map_some, Option.some_inj, hdrb] at hzero
  exact absurd hzero (by decide)

end LlmHric.Sdap
