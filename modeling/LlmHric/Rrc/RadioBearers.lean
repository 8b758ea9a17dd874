import LlmHric.Library.Outcome
import Mathlib.Data.List.Basic
import Mathlib.Data.Int.Notation
import Mathlib.Tactic.Common

/-! The CU maps each QoS flow of a PDU session to a data radio bearer (DRB). A flow that has to be
isolated gets a DRB of its own; any other flow joins the first DRB of its session that still takes
it. DRB identifiers are the smallest free ones in `1..32`.

This file models `rrc_gNB_radio_bearers.c`: the lists of a UE, the operations on them and
the choice of a DRB. A `drbId` of `0` is that of an unassigned flow. -/

namespace LlmHric.Rrc

open Checked

def noFiveqi : ℕ := 0xFFFF
def maxStandardizedFiveqi : ℕ := 90
def maxFiveqi : ℕ := 255
def maxQosFlows : ℕ := 64
def maxDrbsPerUe : ℕ := 32
def nrMaxNbPduSessions : ℕ := 256

/-! ### Data -/

/-- Packet error rate. -/
structure QosPer where
  scalar : ℕ
  exponent : ℕ
  deriving DecidableEq

/-- The characteristics of a flow: a number, or values signalled with an optional number. -/
inductive QosCharacteristics
  | nonDynamic (fiveQi : ℕ)
  | dynamic (fiveQi : Option ℕ) (qosPriority : ℕ) (packetDelayBudget : ℤ) (per : QosPer)
  deriving DecidableEq

/-- `pdusession_level_qos_parameter_t`. -/
structure QosParameter where
  qfi : ℕ
  characteristics : QosCharacteristics
  deriving DecidableEq

/-- `nr_rrc_qos_t`: a flow and the DRB it is assigned to. -/
structure RrcQos where
  drbId : ℕ
  qos : QosParameter
  deriving DecidableEq

/-- `nr_sdap_configuration_t`. -/
structure SdapConfig where
  headerDlAbsent : Bool
  headerUlAbsent : Bool
  defaultDrb : ℕ
  deriving DecidableEq

/-- `pdusession_t`. -/
structure PduSession where
  pdusessionId : ℕ
  qos : List RrcQos
  sdapConfig : SdapConfig
  deriving DecidableEq

/-- `drb_t`. -/
structure Drb where
  drbId : ℕ
  pdusessionId : ℕ
  deriving DecidableEq

/-- The part of `gNB_RRC_UE_t` that concerns bearers. -/
structure RrcUe where
  pduSessions : List PduSession
  drbs : List Drb
  deriving DecidableEq

inductive QosResourceType
  | nonGbr
  | gbr
  | dcGbr
  deriving DecidableEq

/-- `five_qi_resource_type`, whose default entry is `nonGbr`. -/
def fiveQiResourceType (fiveQi : ℕ) : QosResourceType :=
  if fiveQi ∈ [1, 2, 3, 4, 65, 66, 67, 71, 72, 73, 74, 75, 76] then .gbr
  else if fiveQi ∈ [82, 83, 84, 85, 86, 87, 88, 89, 90] then .dcGbr
  else .nonGbr

/-- The standardized numbers. -/
def Standardized (n : ℕ) : Prop :=
  1 ≤ n ∧ n ≤ 10 ∨ 65 ≤ n ∧ n ≤ 67 ∨ 69 ≤ n ∧ n ≤ 70 ∨ 71 ≤ n ∧ n ≤ 76 ∨ 79 ≤ n ∧ n ≤ 80 ∨
    82 ≤ n ∧ n ≤ maxStandardizedFiveqi

instance (n : ℕ) : Decidable (Standardized n) := inferInstanceAs (Decidable (_ ∨ _))

def is5qiStandardized (fiveQi : ℕ) : Outcome Bool := do
  Outcome.assertFatal (fiveQi ≤ maxFiveqi)
  return decide (Standardized fiveQi)

def nrRrcIsNonGbrFiveqi (fiveQi : ℕ) : Outcome Bool := do
  Outcome.assertFatal (fiveQi ≤ maxFiveqi)
  let standardized ← is5qiStandardized fiveQi
  return standardized && fiveQiResourceType fiveQi = .nonGbr

def getQosFiveqi : QosCharacteristics → Outcome ℕ
  | .nonDynamic fiveQi => do
    Outcome.assertFatal (fiveQi ≤ maxStandardizedFiveqi)
    return fiveQi
  | .dynamic (some fiveQi) _ _ _ => do
    Outcome.assertFatal (fiveQi ≤ maxFiveqi)
    return fiveQi
  | .dynamic none _ _ _ => return noFiveqi

def findQos (qos : List RrcQos) (qfi : ℤ) : Option RrcQos :=
  qos.find? fun q => (q.qos.qfi : ℤ) = qfi

/-- The number of a flow given by number only has to be standardized. -/
def checkFiveqi : QosCharacteristics → Outcome Bool
  | .nonDynamic fiveQi => is5qiStandardized fiveQi
  | .dynamic .. => return true

/-- Add a flow; the flow that the call returns is none where it returns a null pointer. -/
def addQos (qos : List RrcQos) (inQos : QosParameter) : Outcome (List RrcQos × Option RrcQos) :=
  if qos.length = maxQosFlows then .done (qos, none)
  else if 63 < inQos.qfi then .done (qos, none)
  else
    match findQos qos inQos.qfi with
    -- the QFI exists already: the flow in the list is kept
    | some existing => .done (qos, some existing)
    | none => do
      let accepted ← checkFiveqi inQos.characteristics
      if accepted then
        let item : RrcQos := { drbId := 0, qos := inQos }
        return (qos ++ [item], some item)
      else return (qos, none)

/-- The loop that fills a new session with the flows of a request. -/
def addQosFlows (qos : List RrcQos) (inQos : List QosParameter) : Outcome (List RrcQos) :=
  inQos.foldlM (fun qos q => do
    let added ← addQos qos q
    return added.1) qos

def rmQos (flows : List RrcQos) (qfi : ℤ) : List RrcQos × Bool :=
  if qfi < 0 ∨ 63 < qfi then (flows, false)
  else
    match findQos flows qfi with
    | none => (flows, false)
    | some _ => (flows.eraseP fun q => (q.qos.qfi : ℤ) = qfi, true)

def findPduSession (sessions : List PduSession) (id : ℕ) : Option PduSession :=
  sessions.find? fun s => s.pdusessionId = id

def addPduSession (sessions : List PduSession) (session : PduSession) : Option (List PduSession) :=
  if sessions.length = nrMaxNbPduSessions then none
  else if (findPduSession sessions session.pdusessionId).isSome then none
  else some (sessions ++ [session])

def findDrbByPdusessionId (drbs : List Drb) (id : ℕ) : Outcome (Option Drb) := do
  Outcome.assertFatal (0 < id ∧ id ≤ nrMaxNbPduSessions)
  return drbs.find? fun d => d.pdusessionId = id

/-- The loop that removes the DRBs of a session one by one; a list has at most `fuel` of them. -/
def rmDrbsOfSession (id : ℕ) : ℕ → List Drb → Outcome (List Drb)
  | 0, drbs => .done drbs
  | fuel + 1, drbs => do
    let found ← findDrbByPdusessionId drbs id
    match found with
    | none => return drbs
    | some _ => rmDrbsOfSession id fuel (drbs.eraseP fun d => d.pdusessionId = id)

def rmPduSession (ue : RrcUe) (id : ℕ) : Outcome (RrcUe × Bool) :=
  match findPduSession ue.pduSessions id with
  | none => .done (ue, false)
  | some _ => do
    let drbs ← rmDrbsOfSession id (ue.drbs.length + 1) ue.drbs
    return ({ pduSessions := ue.pduSessions.eraseP fun s => s.pdusessionId = id, drbs }, true)

def getDrb (drbs : List Drb) (id : ℕ) : Outcome (Option Drb) := do
  Outcome.assertFatal (0 < id ∧ id ≤ maxDrbsPerUe)
  return drbs.find? fun d => d.drbId = id

/-- The smallest identifier that no DRB has, from `id` on. -/
def nextDrbId (drbs : List Drb) : ℕ → ℕ → Outcome (Option ℕ)
  | 0, _ => .done none
  | left + 1, id => do
    let drb ← getDrb drbs id
    match drb with
    | none => return some id
    | some _ => nextDrbId drbs left (id + 1)

/-- Add a DRB; none where the call returns a null pointer. -/
def nrRrcAddDrb (drbs : List Drb) (pdusessionId : ℕ) : Outcome (Option (List Drb × Drb)) := do
  Outcome.assertFatal (0 < pdusessionId ∧ pdusessionId ≤ nrMaxNbPduSessions)
  let id ← nextDrbId drbs maxDrbsPerUe 1
  match id with
  | none => return none
  | some drbId => return some (drbs ++ [⟨drbId, pdusessionId⟩], ⟨drbId, pdusessionId⟩)

/-- Numbers with a DRB of their own beside the delay-critical ones. -/
def DedicatedFiveqi (n : ℕ) : Prop :=
  n = 4 ∨ n = 6 ∨ n = 7 ∨ n = 8 ∨ n = 9 ∨ n = 10 ∨ n = 70 ∨ n = 80 ∨ 71 ≤ n ∧ n ≤ 73

instance (n : ℕ) : Decidable (DedicatedFiveqi n) := inferInstanceAs (Decidable (_ ∨ _))

/-- Low latency, high reliability or high priority. -/
def dedicatedCharacteristics (qosPriority : ℕ) (packetDelayBudget : ℤ) (per : QosPer) : Bool :=
  packetDelayBudget ≤ 50 || (per.scalar ≤ 1 && 6 ≤ per.exponent) || qosPriority ≤ 10

def nrRrcQosDedicatedDrb (qos : QosCharacteristics) : Outcome Bool := do
  let fiveQi ← getQosFiveqi qos
  if fiveQi ≠ noFiveqi then
    let standardized ← is5qiStandardized fiveQi
    if !standardized then return true
    else if fiveQiResourceType fiveQi = .dcGbr then return true
    else return decide (DedicatedFiveqi fiveQi)
  else
    match qos with
    | .nonDynamic _ => .fault .assertion
    | .dynamic _ priority budget per => return dedicatedCharacteristics priority budget per

/-- The flows on a DRB by resource type. -/
structure FlowCounts where
  dcGbr : ℕ
  gbr : ℕ
  nonGbr : ℕ
  deriving DecidableEq

def FlowCounts.add (c : FlowCounts) : QosResourceType → FlowCounts
  | .dcGbr => { c with dcGbr := c.dcGbr + 1 }
  | .gbr => { c with gbr := c.gbr + 1 }
  | .nonGbr => { c with nonGbr := c.nonGbr + 1 }

/-- The counter that a flow belongs to: flows without a standardized number are counted as
delay-critical. -/
def countedAs (qos : QosCharacteristics) : Outcome QosResourceType := do
  let fiveQi ← getQosFiveqi qos
  if fiveQi = noFiveqi then return .dcGbr
  else
    let standardized ← is5qiStandardized fiveQi
    if !standardized then return .dcGbr
    else
      Outcome.assertFatal (fiveQi ≤ maxStandardizedFiveqi)
      return fiveQiResourceType fiveQi

def nrRrcCountQosFlowsByType (flows : List RrcQos) (drbId : ℕ) : Outcome FlowCounts :=
  flows.foldlM (fun c q =>
    if q.drbId = drbId then do
      let type ← countedAs q.qos.characteristics
      return c.add type
    else return c) ⟨0, 0, 0⟩

/-- The loop that looks for a flow with a DRB of its own on a DRB. -/
def hasDedicatedFlowOnDrb (drbId : ℕ) : List RrcQos → Outcome Bool
  | [] => return false
  | q :: flows =>
    if q.drbId ≠ drbId then hasDedicatedFlowOnDrb drbId flows
    else do
      let dedicated ← nrRrcQosDedicatedDrb q.qos.characteristics
      if dedicated then return true else hasDedicatedFlowOnDrb drbId flows

/-! ### Choice of a DRB -/

def maxQosFlowsPerDrbDcGbr : ℕ := 1
def maxQosFlowsPerDrbGbr : ℕ := 2
def maxQosFlowsPerDrbNonGbr : ℕ := 5
def maxQosFlowsPerDrbTotal : ℕ := 5

/-- Room on a DRB for one more flow of a type. -/
def hasCapacity (type : QosResourceType) (c : FlowCounts) : Bool :=
  match type with
  | .gbr => c.gbr < maxQosFlowsPerDrbGbr
  | .nonGbr => c.nonGbr < maxQosFlowsPerDrbNonGbr
  | .dcGbr => false

/-- The loop over the DRBs of the UE. -/
def findDrbWithCapacity (pdusessionId : ℕ) (type : QosResourceType) (flows : List RrcQos) :
    List Drb → Outcome (Option ℕ)
  | [] => return none
  | drb :: drbs =>
    if drb.pdusessionId ≠ pdusessionId then findDrbWithCapacity pdusessionId type flows drbs
    else do
      let c ← nrRrcCountQosFlowsByType flows drb.drbId
      Outcome.assertFatal (c.dcGbr ≤ maxQosFlowsPerDrbDcGbr)
      if c.dcGbr = maxQosFlowsPerDrbDcGbr then findDrbWithCapacity pdusessionId type flows drbs
      else
        let dedicated ← hasDedicatedFlowOnDrb drb.drbId flows
        if dedicated then findDrbWithCapacity pdusessionId type flows drbs
        else if hasCapacity type c ∧ c.gbr + c.nonGbr < maxQosFlowsPerDrbTotal then
          return some drb.drbId
        else findDrbWithCapacity pdusessionId type flows drbs

/-- The DRB that takes one more flow; none where the call returns `-1`. -/
def nrRrcFindSuitableDrbForQos (drbs : List Drb) (pdusessionId : ℕ) (qos : QosCharacteristics)
    (flows : List RrcQos) : Outcome (Option ℕ) := do
  let fiveQi ← getQosFiveqi qos
  let standardized ← if fiveQi = noFiveqi then .done false else is5qiStandardized fiveQi
  if !standardized then
    match qos with
    | .nonDynamic _ => .fault .assertion
    | .dynamic .. => return none
  else
    let type := fiveQiResourceType fiveQi
    let dedicated ← nrRrcQosDedicatedDrb qos
    if dedicated || type = .dcGbr then return none
    else findDrbWithCapacity pdusessionId type flows drbs

/-- The DRBs afterwards, the DRB of the flow, and whether it is a new one. -/
structure Assignment where
  drbs : List Drb
  drbId : ℕ
  isNewDrb : Bool
  deriving DecidableEq

/-- `flows` are those of the session, the flow `qos` among them. -/
def nrRrcAssignDrbToQosFlow (drbs : List Drb) (pdusessionId : ℕ) (flows : List RrcQos)
    (qos : QosCharacteristics) : Outcome Assignment := do
  let _ ← getQosFiveqi qos
  let suitable ← nrRrcFindSuitableDrbForQos drbs pdusessionId qos flows
  match suitable with
  | some drbId =>
    Outcome.assertFatal (0 < drbId ∧ drbId ≤ maxDrbsPerUe)
    return { drbs, drbId, isNewDrb := false }
  | none =>
    let added ← nrRrcAddDrb drbs pdusessionId
    match added with
    | none => .fault .assertion
    | some (drbs, drb) =>
      Outcome.assertFatal (0 < drb.drbId ∧ drb.drbId ≤ maxDrbsPerUe)
      return { drbs, drbId := drb.drbId, isNewDrb := true }

def getSdapConfig (enableSdap : Bool) : SdapConfig where
  headerDlAbsent := !enableSdap
  headerUlAbsent := !enableSdap
  defaultDrb := 0

/-- The default DRB of a session is that of its first flow given by a non-GBR number. -/
def eligibleForDefault (qos : QosCharacteristics) : Outcome Bool := do
  let fiveQi ← getQosFiveqi qos
  if fiveQi = noFiveqi then return false
  else
    Outcome.assertFatal (fiveQi ≤ maxFiveqi)
    match qos with
    | .nonDynamic _ => nrRrcIsNonGbrFiveqi fiveQi
    | .dynamic .. => return false

/-- The loop over the flows of a new session: those before the loop are `visited`. -/
def assignFlows (pdusessionId : ℕ) :
    List Drb → List RrcQos → Option ℕ → List RrcQos → Outcome (List Drb × List RrcQos × Option ℕ)
  | drbs, visited, default, [] => return (drbs, visited, default)
  | drbs, visited, default, q :: rest => do
    let a ← nrRrcAssignDrbToQosFlow drbs pdusessionId (visited ++ q :: rest) q.qos.characteristics
    let eligible ← eligibleForDefault q.qos.characteristics
    let default' := if eligible ∧ default = none then some a.drbId else default
    assignFlows pdusessionId a.drbs (visited ++ [{ q with drbId := a.drbId }]) default' rest

/-- Add one session and assign its flows; a session that cannot be added is left out. -/
def addBearersOfSession (enableSdap : Bool) (ue : RrcUe) (session : PduSession) :
    Outcome RrcUe :=
  match addPduSession ue.pduSessions session with
  | none => return ue
  | some _ => do
    let (drbs, qos, default) ← assignFlows session.pdusessionId ue.drbs [] none session.qos
    let sdapConfig := getSdapConfig enableSdap
    let added : PduSession :=
      { session with qos, sdapConfig := { sdapConfig with defaultDrb := default.getD 0 } }
    return { pduSessions := ue.pduSessions ++ [added], drbs }

def nrRrcAddBearers (enableSdap : Bool) (ue : RrcUe) (sessions : List PduSession) : Outcome RrcUe :=
  sessions.foldlM (addBearersOfSession enableSdap) ue

end LlmHric.Rrc
