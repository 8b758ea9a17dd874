import LlmHric.Sdap.EntityStore
import Mathlib.Data.List.FinRange

/-! When a bearer context is modified, the list of QoS flows of a DRB replaces the one it had. The
flows that are missing from the list are released, and all flows of the list are added, also those
that are mapped to the DRB already. The role of the rules is not the one of the DRB's configuration:
if the entity has headers at all, it is the role for headers in both directions. -/

namespace LlmHric.Sdap

open SdapEntity

variable {e e' : SdapEntity} {l : List SdapEntity} {drbId : ℤ} {qfis : List Qfi} {qfi : Qfi}

namespace SdapEntity

/-- The role of `nr_sdap_entity_update_qos_flows` for an entity with headers. -/
def bothDirections (isGnb : Bool) : UInt8 :=
  if isGnb then noSdapHeader ||| sdapUlRx ||| sdapDlTx else noSdapHeader ||| sdapUlTx ||| sdapDlRx

/-- The configuration of `nr_sdap_entity_update_qos_flows`. -/
def updateConfig (e : SdapEntity) (pdusessionId drbId : ℤ) (qfis : List Qfi) : SdapConfig where
  pdusessionId
  drbId
  role := if e.enableSdap then bothDirections e.isGnb else noSdapHeader
  defaultDRB := e.defaultDrb = drbId
  mappedQFIs2Add := qfis
  mappedQFIs2Release :=
    (List.finRange 64).filter fun q => (e.qfi2drbTable q).drbId = drbId ∧ ¬ q ∈ qfis

end SdapEntity

/-- `nr_sdap_entity_update_qos_flows`; `none` is a failed assertion, or a list that does not fit
into the array of a configuration. Without an entity nothing happens. -/
def entityUpdateQosFlows (l : List SdapEntity) (ueId : ℕ) (pdusessionId drbId : ℤ)
    (qfis : List Qfi) : Option (List SdapEntity) :=
  match getEntity l ueId pdusessionId with
  | none => some l
  | some e =>
    if qfis.length > 64 then none
    else
      (e.qfi2drbMapUpdate (e.updateConfig pdusessionId drbId qfis)).map fun e' =>
        l.replaceF fun x => if isOf ueId pdusessionId x then some e' else none

/-- Afterwards exactly the flows of the list are mapped to the DRB, flows that have nothing to do
with it keep their rule, and those that stay keep their role. -/
structure ReplacesFlows (e e' : SdapEntity) (drbId : ℤ) (qfis : List Qfi) : Prop where
  mapped : ∀ qfi, (e'.qfi2drbTable qfi).drbId = drbId ↔ qfi ∈ qfis
  others : ∀ qfi, qfi ∉ qfis → (e.qfi2drbTable qfi).drbId ≠ drbId →
    e'.qfi2drbTable qfi = e.qfi2drbTable qfi
  kept : ∀ qfi ∈ qfis, (e.qfi2drbTable qfi).drbId = drbId →
    (e'.qfi2drbTable qfi).entityRole = (e.qfi2drbTable qfi).entityRole

/-! ### The rules after the update -/

/-- A flow of the list is not released. -/
theorem mem_release_updateConfig {pdusessionId : ℤ} :
    qfi ∈ (e.updateConfig pdusessionId drbId qfis).mappedQFIs2Release ↔
      (e.qfi2drbTable qfi).drbId = drbId ∧ qfi ∉ qfis := by
  rw [updateConfig, List.mem_filter, decide_eq_true_iff]
  exact and_iff_right (List.mem_finRange qfi)

/-- The rule of a flow after the update. -/
theorem qfi2drbTable_updateConfig {pdusessionId : ℤ} (henable : e.enableSdap = true)
    (hvalid : ValidDrb drbId)
    (h : e.qfi2drbMapUpdate (e.updateConfig pdusessionId drbId qfis) = some e') (qfi : Qfi) :
    e'.qfi2drbTable qfi =
      if qfi ∈ qfis then ⟨drbId, bothDirections e.isGnb⟩
      else if (e.qfi2drbTable qfi).drbId = drbId then noMappingRule
      else e.qfi2drbTable qfi := by
  have hrole : (e.updateConfig pdusessionId drbId qfis).role = bothDirections e.isGnb :=
    if_pos henable
  rw [qfi2drbMapUpdate_table h, SdapConfig.effect, hrole]
  by_cases hq : qfi ∈ qfis
  · rw [if_neg fun hrelease => (mem_release_updateConfig.mp hrelease).2 hq, if_pos ⟨hq, hvalid⟩,
      if_pos hq]
    rfl
  · rw [if_neg hq]
    by_cases hdrb : (e.qfi2drbTable qfi).drbId = drbId
    · rw [if_pos (mem_release_updateConfig.mpr ⟨hdrb, hq⟩), if_pos hdrb]
      rfl
    · rw [if_neg fun hrelease => hdrb (mem_release_updateConfig.mp hrelease).1,
        if_neg fun hadd : qfi ∈ (e.updateConfig pdusessionId drbId qfis).mappedQFIs2Add ∧ _ =>
          hq hadd.1, if_neg hdrb]
      rfl

/-- The flows and their DRBs are always right; the roles may change. -/
theorem replacesFlows_of_table (hvalid : ValidDrb drbId)
    (htable : ∀ qfi, e'.qfi2drbTable qfi =
      if qfi ∈ qfis then ⟨drbId, bothDirections e.isGnb⟩
      else if (e.qfi2drbTable qfi).drbId = drbId then noMappingRule
      else e.qfi2drbTable qfi) :
    ReplacesFlows e e' drbId qfis ↔ ∀ qfi ∈ qfis, (e.qfi2drbTable qfi).drbId = drbId →
      (e.qfi2drbTable qfi).entityRole = bothDirections e.isGnb := by
  constructor
  · intro h qfi hq hdrb
    have hkept := h.kept qfi hq hdrb
    rw [htable, if_pos hq] at hkept
    exact hkept.symm
  · intro hrole
    refine ⟨fun qfi => ?_, fun qfi hq hdrb => ?_, fun qfi hq hdrb => ?_⟩
    · rw [htable]
      by_cases hq : qfi ∈ qfis
      · rw [if_pos hq]
        exact iff_of_true rfl hq
      · rw [if_neg hq]
        -- the number of a DRB is not that of a missing rule
        have hpos : (0 : ℤ) ≠ drbId := Int.ne_of_lt hvalid.1
        split_ifs with hdrb
        · exact iff_of_false hpos hq
        · exact iff_of_false hdrb hq
    · rw [htable, if_neg hq, if_neg hdrb]
    · rw [htable, if_pos hq]
      exact (hrole qfi hq hdrb).symm

/-- An entity with headers replaces the flows of a DRB exactly when the flows that stay on it have
the role for both directions. -/
theorem replacesFlows_iff {ueId : ℕ} {pdusessionId : ℤ}
    (hget : getEntity l ueId pdusessionId = some e) (henable : e.enableSdap = true)
    (hvalid : ValidDrb drbId) (hlength : qfis.length ≤ 64) :
    (∃ l' e', entityUpdateQosFlows l ueId pdusessionId drbId qfis = some l' ∧
        getEntity l' ueId pdusessionId = some e' ∧ ReplacesFlows e e' drbId qfis) ↔
      ∀ qfi ∈ qfis, (e.qfi2drbTable qfi).drbId = drbId →
        (e.qfi2drbTable qfi).entityRole = bothDirections e.isGnb := by
  obtain ⟨e', he'⟩ := exists_qfi2drbMapUpdate henable (e.updateConfig pdusessionId drbId qfis)
  have hupdate : entityUpdateQosFlows l ueId pdusessionId drbId qfis =
      some (l.replaceF fun x => if isOf ueId pdusessionId x then some e' else none) := by
    rw [entityUpdateQosFlows, hget]
    simp only [if_neg (Nat.not_lt.mpr hlength), he', Option.map_some]
  have hget' : getEntity (l.replaceF fun x => if isOf ueId pdusessionId x then some e' else none)
      ueId pdusessionId = some e' := by
    rw [getEntity_replaceF hget fun p => ?_, if_pos rfl]
    rw [isOf_eq, isOf_eq, key_qfi2drbMapUpdate he']
  rw [← replacesFlows_of_table hvalid (qfi2drbTable_updateConfig henable hvalid he')]
  constructor
  · rintro ⟨l', e'', hl', he'', hreplaces⟩
    obtain rfl := Option.some.inj (hupdate.symm.trans hl')
    obtain rfl := Option.some.inj (hget'.symm.trans he'')
    exact hreplaces
  · intro hreplaces
    exact ⟨_, e', hupdate, hget', hreplaces⟩

def UpdatesReplaceFlows : Prop :=
  ∀ (l : List SdapEntity) (ueId : ℕ) (pdusessionId : ℤ) (e : SdapEntity) (drbId : ℤ)
    (qfis : List Qfi), getEntity l ueId pdusessionId = some e → e.enableSdap = true →
    ValidDrb drbId → qfis.length ≤ 64 →
    ∃ l' e', entityUpdateQosFlows l ueId pdusessionId drbId qfis = some l' ∧
      getEntity l' ueId pdusessionId = some e' ∧ ReplacesFlows e e' drbId qfis

theorem six_lt : 6 < 64 := by decide

/-- Flow 5 stays on DRB 1, and flow 6 comes to it. -/
theorem replacesFlows_sessionEntity :
    ∃ l' e', entityUpdateQosFlows [sessionEntity] 1 1 1 [⟨5, five_lt⟩, ⟨6, six_lt⟩] = some l' ∧
      getEntity l' 1 1 = some e' ∧
        ReplacesFlows sessionEntity e' 1 [⟨5, five_lt⟩, ⟨6, six_lt⟩] := by
  apply (replacesFlows_iff (e := sessionEntity) rfl rfl (by decide) (by decide)).mpr
  decide

/-- The entity of a session whose DRB 1 has the header for uplink only. -/
def uplinkEntity : SdapEntity :=
  { sessionEntity with
    qfi2drbTable := Function.update (fun _ => noMappingRule) ⟨5, five_lt⟩ ⟨1, sdapUlRx⟩ }

/-- After an update with the flow it already has, the DRB sends headers in downlink. -/
theorem not_updatesReplaceFlows : ¬ UpdatesReplaceFlows := by
  intro h
  obtain ⟨l', e', hl', he', hreplaces⟩ :=
    h [uplinkEntity] 1 1 uplinkEntity 1 [⟨5, five_lt⟩] rfl rfl (by decide) (by decide)
  have hkept := hreplaces.kept ⟨5, five_lt⟩ (by decide) (by decide)
  have hrole : ((entityUpdateQosFlows [uplinkEntity] 1 1 1 [⟨5, five_lt⟩]).bind fun l =>
      (getEntity l 1 1).map fun e => (e.qfi2drbTable ⟨5, five_lt⟩).entityRole) = some 6 := by
    decide
  rw [hl', Option.bind_some, he', Option.map_some, Option.some_inj] at hrole
  rw [hrole] at hkept
  exact absurd hkept (by decide)

end LlmHric.Sdap
