import Mathlib.Data.Int.Notation
import Mathlib.Data.List.Basic
import Mathlib.Logic.Function.Basic
import Mathlib.Tactic.Common
import Mathlib.Tactic.SplitIfs

/-! There is an SDAP entity for each PDU session, at the UE and at the gNB. It maps the QoS flows of
the session to its data radio bearers: a table holds the rules, and flows without a rule go to the
default DRB. A PDU carries its QFI if the configuration of its DRB says that there is a header in
its direction. The direction of a header is a bit of the role that the table holds with each rule.
-/

namespace LlmHric.Sdap

/-! ### Configuration -/

/-- `NR_QFI_t`, in RRC an integer between 0 and 63. `SDAP_MAX_QFI` is 64. -/
abbrev Qfi := Fin 64

instance (qfi : Qfi) (l : List Qfi) : Decidable (qfi ∈ l) :=
  @List.instDecidableMemOfLawfulBEq Qfi _ instLawfulBEq qfi l

/-- `MAX_DRBS_PER_UE` -/
def maxDrbsPerUe : ℤ := 32

/-- `SDAP_HDR_LENGTH` -/
def sdapHdrLength : ℕ := 1

/-- `NO_SDAP_HEADER` -/
def noSdapHeader : UInt8 := 0

/-- `SDAP_UL_TX` -/
def sdapUlTx : UInt8 := 1

/-- `SDAP_UL_RX` -/
def sdapUlRx : UInt8 := 2

/-- `SDAP_DL_TX` -/
def sdapDlTx : UInt8 := 4

/-- `SDAP_DL_RX` -/
def sdapDlRx : UInt8 := 8

/-- `NR_SDAP_Config_t`; a header is present or absent. -/
structure NrSdapConfig where
  pduSession : ℕ
  sdapHeaderDL : Bool
  sdapHeaderUL : Bool
  defaultDRB : Bool
  mappedQosFlowsToAdd : Option (List Qfi)
  mappedQosFlowsToRelease : Option (List Qfi)
  deriving DecidableEq

/-- `sdap_config_t`; the counts are the lengths of the lists. -/
structure SdapConfig where
  pdusessionId : ℤ
  drbId : ℤ
  role : UInt8
  defaultDRB : Bool
  mappedQFIs2Add : List Qfi
  mappedQFIs2Release : List Qfi
  deriving DecidableEq

/-- `get_sdap_role` -/
def getSdapRole (isGnb : Bool) (sdapConfig : NrSdapConfig) : UInt8 :=
  (if sdapConfig.sdapHeaderUL then if isGnb then sdapUlRx else sdapUlTx else noSdapHeader) |||
    (if sdapConfig.sdapHeaderDL then if isGnb then sdapDlTx else sdapDlRx else noSdapHeader)

/-- A list of QFIs from RRC. Its count has 8 bits, and the array has 64 places. -/
def mappedQFIs : Option (List Qfi) → Option (List Qfi)
  | none => some []
  | some l => if l.length % 256 ≤ 64 then some (l.take (l.length % 256)) else none

/-- `nr_sdap_get_config`; `none` is a failed assertion. -/
def getConfig (isGnb : Bool) (sdapConfig : NrSdapConfig) (drbId : ℤ) : Option SdapConfig := do
  let mappedQFIs2Add ← mappedQFIs sdapConfig.mappedQosFlowsToAdd
  let mappedQFIs2Release ← mappedQFIs sdapConfig.mappedQosFlowsToRelease
  return ⟨sdapConfig.pduSession, drbId, getSdapRole isGnb sdapConfig, sdapConfig.defaultDRB,
    mappedQFIs2Add, mappedQFIs2Release⟩

/-- `nr_sdap_ul_hdr_t` -/
def ulHdr (qfi : Qfi) (r dc : Bool) : UInt8 :=
  .ofNat qfi ||| (if r then 0x40 else 0) ||| if dc then 0x80 else 0

/-- `nr_sdap_dl_hdr_t` -/
def dlHdr (qfi : Qfi) (rqi rdi : Bool) : UInt8 :=
  .ofNat qfi ||| (if rqi then 0x40 else 0) ||| if rdi then 0x80 else 0

/-- The field `QFI` of both headers. -/
def hdrQfi (b : UInt8) : Qfi := ⟨(b &&& 0x3f).toNat, by
  have hle : (b &&& 0x3f).toNat ≤ 0x3f := by
    rw [UInt8.toNat_and]
    exact Nat.and_le_right
  omega⟩

/-! ### Entities -/

/-- `qfi2drb_t`; a flow without a rule has the DRB `SDAP_NO_MAPPING_RULE`, which is 0. -/
structure Qfi2Drb where
  drbId : ℤ
  entityRole : UInt8
  deriving DecidableEq

def noMappingRule : Qfi2Drb := ⟨0, noSdapHeader⟩

/-- `nr_sdap_entity_t`, with the control PDUs it has submitted to a DRB. -/
structure SdapEntity where
  ueId : ℕ
  pdusessionId : ℤ
  isGnb : Bool
  enableSdap : Bool
  defaultDrb : ℤ
  qfi2drbTable : Qfi → Qfi2Drb
  submitted : List (ℤ × UInt8)

namespace SdapEntity

/-- `nr_sdap_qfi2drb_map_add` -/
def qfi2drbMapAdd (e : SdapEntity) (qfi : Qfi) (drbId : ℤ) (role : UInt8) : SdapEntity :=
  { e with qfi2drbTable := Function.update e.qfi2drbTable qfi ⟨drbId, role⟩ }

/-- `nr_sdap_qfi2drb_map_del` -/
def qfi2drbMapDel (e : SdapEntity) (qfi : Qfi) : SdapEntity :=
  { e with qfi2drbTable := Function.update e.qfi2drbTable qfi noMappingRule }

/-- `nr_sdap_qfi2drb` -/
def qfi2drb (e : SdapEntity) (qfi : Qfi) : ℤ :=
  if (e.qfi2drbTable qfi).drbId ≠ 0 then (e.qfi2drbTable qfi).drbId
  else if e.defaultDrb ≠ 0 then e.defaultDrb
  else 0

/-- `nr_sdap_submit_ctrl_pdu`, with the end marker of `nr_sdap_construct_ctrl_pdu`. -/
def submitCtrlPdu (e : SdapEntity) (drb : ℤ) (qfi : Qfi) : SdapEntity :=
  if drb ≠ 0 then { e with submitted := e.submitted ++ [(drb, ulHdr qfi false false)] } else e

/-- The body of the loop of `nr_sdap_ue_control_pdu_config`. -/
def ueControlPdu (sdap : SdapConfig) (e : SdapEntity) (qfi : Qfi) : SdapEntity :=
  let e :=
    if e.defaultDrb ≠ 0 ∧ (e.qfi2drbTable qfi).drbId = 0 then e.submitCtrlPdu e.defaultDrb qfi
    else e
  if (e.qfi2drbTable qfi).drbId ≠ sdap.drbId ∧ (e.qfi2drbTable qfi).entityRole &&& sdapUlTx ≠ 0 then
    e.submitCtrlPdu (e.qfi2drb qfi) qfi
  else e

/-- `nr_sdap_ue_control_pdu_config` -/
def ueControlPduConfig (e : SdapEntity) (sdap : SdapConfig) : SdapEntity :=
  sdap.mappedQFIs2Add.foldl (ueControlPdu sdap) e

/-- `nr_sdap_add_qos_flows_to_drb`; all QFIs are in range. -/
def addQosFlowsToDrb (e : SdapEntity) (sdap : SdapConfig) : SdapEntity :=
  sdap.mappedQFIs2Add.foldl
    (fun e qfi =>
      if sdap.drbId > 0 ∧ sdap.drbId ≤ maxDrbsPerUe then e.qfi2drbMapAdd qfi sdap.drbId sdap.role
      else e)
    e

/-- `nr_sdap_rm_qos_flows_from_drb` -/
def rmQosFlowsFromDrb (e : SdapEntity) (sdap : SdapConfig) : SdapEntity :=
  sdap.mappedQFIs2Release.foldl qfi2drbMapDel e

/-- `nr_sdap_qfi2drb_map_update`; `none` is a failed assertion. -/
def qfi2drbMapUpdate (e : SdapEntity) (sdap : SdapConfig) : Option SdapEntity :=
  if e.enableSdap = false ∧
      ∃ qfi, (e.qfi2drbTable qfi).drbId ≠ 0 ∧ (e.qfi2drbTable qfi).drbId ≠ sdap.drbId then none
  else
    let e := if e.isGnb then e else e.ueControlPduConfig sdap
    some ((e.addQosFlowsToDrb sdap).rmQosFlowsFromDrb sdap)

/-- `nr_sdap_add_entity`; `none` is a failed assertion. The flows to release are not looked at. -/
def addEntity (isGnb : Bool) (ueId : ℕ) (sdap : SdapConfig) : Option SdapEntity :=
  if sdap.role = noSdapHeader ∧ ¬ sdap.mappedQFIs2Add.length ≤ 1 then none
  else
    some (addQosFlowsToDrb
      ⟨ueId, sdap.pdusessionId, isGnb, sdap.role ≠ noSdapHeader,
        if sdap.defaultDRB then sdap.drbId else 0, fun _ => noMappingRule, []⟩ sdap)

/-- An entity belongs to a PDU session of a UE. -/
def isOf (ueId : ℕ) (pdusessionId : ℤ) (e : SdapEntity) : Bool :=
  e.ueId = ueId ∧ e.pdusessionId = pdusessionId

end SdapEntity

open SdapEntity

/-- `nr_sdap_get_entity` -/
def getEntity (l : List SdapEntity) (ueId : ℕ) (pdusessionId : ℤ) : Option SdapEntity :=
  l.find? (isOf ueId pdusessionId)

/-- `nr_sdap_addmod_entity`; `none` is a failed assertion. -/
def addmodEntity (isGnb : Bool) (ueId : ℕ) (l : List SdapEntity) (sdap : SdapConfig) :
    Option (List SdapEntity) :=
  match getEntity l ueId sdap.pdusessionId with
  | some e =>
    (e.qfi2drbMapUpdate sdap).map fun e' =>
      l.replaceF fun x => if isOf ueId sdap.pdusessionId x then some e' else none
  | none => (addEntity isGnb ueId sdap).map (· :: l)

/-- What becomes of a received PDU. The UE hands SDUs to its network interface, the gNB to GTP-U,
with or without a QFI. -/
inductive RxOutcome
  | dropped
  | assertionFailed
  | toGtp (qfi : Option Qfi) (sdu : List UInt8)
  | toTun (sdu : List UInt8)
  deriving DecidableEq

namespace SdapEntity

/-- `nr_sdap_tx_entity`: the DRB and the PDU that are handed to PDCP. -/
def txEntity (e : SdapEntity) (sdu : List UInt8) (qfi : Qfi) (rqi : Bool) :
    Option (ℤ × List UInt8) :=
  let drbId := e.qfi2drb qfi
  if drbId = 0 then none
  else
    let role := (e.qfi2drbTable qfi).entityRole
    let sdapUlTx := role &&& sdapUlTx ≠ 0
    let sdapDlTx := role &&& sdapDlTx ≠ 0
    if ¬ sdapUlTx ∧ ¬ sdapDlTx then some (drbId, sdu)
    else if sdu.length = 0 ∨ sdu.length > 8999 then none
    else if sdapDlTx then some (drbId, dlHdr qfi rqi false :: sdu)
    else some (drbId, ulHdr qfi false rqi :: sdu)

/-- The reflective mapping of the UE for a PDU whose RDI is set. -/
def reflectiveMapping (e : SdapEntity) (pdcpEntity : ℤ) (qfi : Qfi) : SdapEntity :=
  let e :=
    if (e.qfi2drbTable qfi).drbId = 0 ∧ e.defaultDrb ≠ 0 then e.submitCtrlPdu e.defaultDrb qfi
    else e
  let e :=
    if pdcpEntity ≠ (e.qfi2drbTable qfi).drbId then e.submitCtrlPdu (e.qfi2drb qfi) qfi else e
  { e with qfi2drbTable :=
      Function.update e.qfi2drbTable qfi ⟨pdcpEntity, (e.qfi2drbTable qfi).entityRole⟩ }

/-- `nr_sdap_rx_entity`. A PDU has at least one byte. -/
def rxEntity (e : SdapEntity) (pdcpEntity : ℤ) (isGnb : Bool) (buf : List UInt8) :
    SdapEntity × RxOutcome :=
  let qfi := hdrQfi (buf.headD 0)
  let mapping := e.qfi2drbTable qfi
  if e.enableSdap ∧ mapping.drbId = 0 then (e, .dropped)
  else
    let sdapUlRx := e.enableSdap ∧ mapping.entityRole &&& sdapUlRx ≠ 0
    let sdapDlRx := e.enableSdap ∧ mapping.entityRole &&& sdapDlRx ≠ 0
    if isGnb then
      if sdapUlRx then (e, .toGtp (some qfi) (buf.drop sdapHdrLength))
      -- a QFI was read from the PDU although no header is expected
      else if e.enableSdap then (e, .assertionFailed)
      else (e, .toGtp none buf)
    else if sdapDlRx then
      (if buf.headD 0 &&& 0x80 ≠ 0 then e.reflectiveMapping pdcpEntity qfi else e,
        .toTun (buf.drop sdapHdrLength))
    else (e, .toTun buf)

end SdapEntity

end LlmHric.Sdap
