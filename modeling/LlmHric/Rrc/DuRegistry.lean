import LlmHric.Library.Outcome
import Mathlib.Algebra.Group.Nat.Defs
import Mathlib.Data.List.Basic
import Mathlib.Data.Int.Notation
import Mathlib.Logic.Function.Basic
import Mathlib.Tactic.Common

/-! The CU keeps the connected DUs in a tree by SCTP association and the cells of all DUs in a tree
by cell identifier; each DU also has an array of its cells. Trees and arrays hold pointers to the
same cells, so that a changed cell is changed everywhere, while its place in the cell tree is that
of the identifier it was inserted with. A UE names its serving cells by identifier and association.

This file models `rrc_cell_management.c` and the F1 procedures of `rrc_gNB_du.c`. Generated
ASN.1 code is a parameter. -/

namespace LlmHric.Rrc

open Checked

/-! ### Messages and configuration -/

/-- SCTP associations. -/
abbrev AssocId := ℤ

abbrev Bytes := List UInt8

structure PlmnId where
  mcc : ℕ
  mnc : ℕ
  mncDigitLength : ℕ
  deriving DecidableEq

structure FreqInfo where
  band : ℤ
  arfcn : ℕ
  scs : ℕ
  nrb : ℕ
  deriving DecidableEq

inductive CellMode
  | tdd (dlul : FreqInfo)
  | fdd (dl ul : FreqInfo)
  deriving DecidableEq

def CellMode.dl : CellMode → FreqInfo
  | tdd dlul => dlul
  | fdd dl _ => dl

/-- `f1ap_served_cell_info_t`. -/
structure ServedCellInfo where
  plmn : PlmnId
  nrCellid : ℕ
  nrPci : ℕ
  tac : Option ℕ
  mode : CellMode
  measurementTimingConfig : Bytes
  deriving DecidableEq

/-- `f1ap_gnb_du_system_info_t`; a missing message is a null pointer. -/
structure SystemInfo where
  mib : Option Bytes
  sib1 : Option Bytes
  deriving DecidableEq

/-- A measurement timing configuration of the expected format. -/
structure Mtc where
  carrierFreq : ℤ
  deriving DecidableEq

/-- `nr_neighbour_cell_t`. -/
structure NeighbourCell where
  nrcellId : ℕ
  physicalCellId : ℤ
  absoluteFrequencySsb : ℤ
  subcarrierSpacing : ℤ
  band : ℤ
  plmn : PlmnId
  tac : ℕ
  deriving DecidableEq

structure NeighbourCellConfiguration where
  nrCellId : ℕ
  neighbourCells : List NeighbourCell
  deriving DecidableEq

inductive SibType
  | sib2
  | sib3
  | sib4
  deriving DecidableEq

/-- The configuration of the CU and the generated ASN.1 code it calls. An encoder that fails
returns no bytes; `sib3` and `sib4` return none where there is no matching neighbour. -/
structure RrcConfig where
  plmn : List PlmnId
  neighbourCellConfiguration : Option (List NeighbourCellConfiguration)
  sibs : List SibType
  sibs_nodup : sibs.Nodup
  saMode : Bool
  mibDecodes : Bytes → Bool
  sib1Decodes : Bytes → Bool
  extractMtc : Bytes → Option Mtc
  /-- An empty message does not decode. -/
  extractMtc_nil : extractMtc [] = none
  sib2 : Mtc → Bytes
  sib3 : NeighbourCellConfiguration → ℤ → Option Bytes
  sib4 : NeighbourCellConfiguration → ℤ → Option Bytes

/-- `f1ap_setup_req_t`. -/
structure F1SetupReq where
  gnbDuId : ℕ
  cell : List (ServedCellInfo × Option SystemInfo)
  deriving DecidableEq

inductive F1apCause
  | miscUnspecified
  | plmnNotServedByTheGnbCu
  | semanticError
  | cellNotAvailable
  deriving DecidableEq

/-- `served_cells_to_activate_t`. -/
structure CellToActivate where
  plmn : PlmnId
  nrCellid : ℕ
  nrpci : ℕ
  siMsg : List (SibType × Bytes)
  deriving DecidableEq

inductive F1Reply
  | setupFailure (cause : F1apCause)
  | setupResponse (cells : List CellToActivate)
  deriving DecidableEq

structure CellToModify where
  oldNrCellid : ℕ
  info : ServedCellInfo
  deriving DecidableEq

/-- `f1ap_gnb_du_configuration_update_t`. -/
structure DuConfigurationUpdate where
  cellToAdd : List ServedCellInfo
  cellToModify : List CellToModify
  deriving DecidableEq

/-! ### The registry -/

/-- The address of a cell. -/
abbrev CellPtr := ℕ

/-- `nr_rrc_cell_container_t`. -/
structure Cell where
  assocId : AssocId
  cellId : ℕ
  pci : ℕ
  plmn : PlmnId
  tac : ℕ
  mode : CellMode
  mtc : Option Mtc
  deriving DecidableEq

/-- `nr_rrc_du_container_t`. -/
structure Du where
  assocId : AssocId
  gnbDuId : ℕ
  cells : List CellPtr
  deriving DecidableEq

/-- A node of the cell tree, at the place of the identifier it was inserted with. -/
structure CellNode where
  key : ℕ
  cell : CellPtr
  deriving DecidableEq

structure Registry where
  dus : List Du
  numDus : ℕ
  cells : List CellNode
  numCells : ℕ
  /-- The cells in memory. -/
  heap : CellPtr → Option Cell
  /-- The next address that is allocated. -/
  next : CellPtr

def Registry.empty : Registry := ⟨[], 0, [], 0, fun _ => none, 0⟩

namespace Registry

variable (r : Registry)

/-- Read a cell through a pointer, which may be null. -/
def deref : Option CellPtr → Outcome Cell
  | none => .fault .nullPointer
  | some p =>
    match r.heap p with
    | none => .fault .outOfBounds
    | some c => .done c

def getDuByAssocId (assocId : AssocId) : Option Du := r.dus.find? fun du => du.assocId = assocId

/-- Insert a DU; none if the association is taken. -/
def addDu (du : Du) : Option Registry :=
  if (r.getDuByAssocId du.assocId).isSome then none
  else some { r with dus := r.dus ++ [du], numDus := r.numDus + 1 }

def getCellByCellId (cellId : ℕ) : Option CellPtr :=
  (r.cells.find? fun node => node.key = cellId).map CellNode.cell

def alloc (c : Cell) : Registry :=
  { r with heap := Function.update r.heap r.next (some c), next := r.next + 1 }

def free (p : CellPtr) : Registry := { r with heap := Function.update r.heap p none }

def write (p : CellPtr) (c : Cell) : Registry :=
  { r with heap := Function.update r.heap p (some c) }

/-- Insert a node into the cell tree; none if the identifier is taken. -/
def insertNode (p : CellPtr) (cellId : ℕ) : Option Registry :=
  if (r.getCellByCellId cellId).isSome then none
  else some { r with cells := r.cells ++ [⟨cellId, p⟩] }

def addCell (p : CellPtr) (cellId : ℕ) : Option Registry :=
  (r.insertNode p cellId).map fun r => { r with numCells := r.numCells + 1 }

def removeNode (p : CellPtr) : Outcome Registry :=
  if r.cells.any fun node => node.cell = p then
    .done { r with cells := r.cells.eraseP fun node => node.cell = p }
  else .fault .assertion

def rmCell (p : CellPtr) : Outcome Registry := do
  let r ← r.removeNode p
  return ({ r with numCells := r.numCells - 1 } : Registry).free p

/-- The first cell of a DU with a property. -/
def findCell (cells : List CellPtr) (p : Cell → Bool) : Option CellPtr :=
  cells.find? fun q => (r.heap q).any p

def getCellForDu (cells : List CellPtr) (cellId : ℕ) : Option CellPtr :=
  r.findCell cells fun c => c.cellId = cellId

def getCellByPciForDu (cells : List CellPtr) (pci : ℕ) : Option CellPtr :=
  r.findCell cells fun c => c.pci = pci

/-- Append a cell to the array of a DU; none if its identifier or PCI is in it. -/
def addCellToDu (cells : List CellPtr) (p : CellPtr) (c : Cell) : Option (List CellPtr) :=
  if (r.getCellForDu cells c.cellId).isSome then none
  else if (r.getCellByPciForDu cells c.pci).isSome then none
  else some (cells ++ [p])

/-- Write the array of a DU. -/
def setDuCells (assocId : AssocId) (cells : List CellPtr) : Registry :=
  { r with dus := r.dus.map fun du => if du.assocId = assocId then { du with cells } else du }

/-- The loop that removes the cells of a DU, the last one first. -/
def rmCells : Registry → List CellPtr → Outcome Registry
  | r, [] => .done r
  | r, p :: cells => do
    let _ ← r.deref (some p)
    let r ← r.rmCell p
    rmCells r cells

def rmDu (assocId : AssocId) : Outcome Registry :=
  if r.dus.any fun du => du.assocId = assocId then
    .done { r with dus := r.dus.eraseP fun du => du.assocId = assocId, numDus := r.numDus - 1 }
  else .fault .assertion

def cleanupDu (du : Du) : Outcome Registry := do
  let r ← rmCells r du.cells.reverse
  r.rmDu du.assocId

end Registry

variable (cfg : RrcConfig)

def plmnMatches (info : ServedCellInfo) : Bool :=
  match cfg.plmn with
  | [plmn] => plmn.mcc = info.plmn.mcc && plmn.mnc = info.plmn.mnc
  | _ => false

/-- A configured neighbour, if it is the cell itself, agrees with what the DU says. -/
def neighbourAgrees (info : ServedCellInfo) (ssbArfcn : ℤ) (nc : NeighbourCell) : Bool :=
  if nc.nrcellId ≠ info.nrCellid then true
  else nc.physicalCellId = info.nrPci && info.tac.all (nc.tac = ·) &&
    ssbArfcn = nc.absoluteFrequencySsb && info.mode.dl.band = nc.band &&
    (info.mode.dl.scs : ℤ) = nc.subcarrierSpacing && info.plmn = nc.plmn

/-- The SSB frequency is read before a neighbour is looked at. -/
def validDuInNeighbourConfigs (configs : List NeighbourCellConfiguration)
    (info : ServedCellInfo) : Outcome Bool :=
  match cfg.extractMtc info.measurementTimingConfig with
  | none => .fault .nullPointer
  | some mtc =>
    .done (configs.all fun config => config.neighbourCells.all
      (neighbourAgrees info mtc.carrierFreq))

/-- The neighbour configuration, where there is one, is checked. -/
def neighboursValid (info : ServedCellInfo) : Outcome Bool :=
  match cfg.neighbourCellConfiguration with
  | none => .done true
  | some configs => validDuInNeighbourConfigs cfg configs info

def sysInfoAccepted : Option SystemInfo → Bool
  | none => true
  | some sysInfo =>
    match sysInfo.mib with
    | none => true
    | some mib =>
      match sysInfo.sib1 with
      | none => cfg.saMode || cfg.mibDecodes mib
      | some sib1 => cfg.mibDecodes mib && cfg.sib1Decodes sib1

/-- `cp_f1_served_cell_info_to_cell`, over a cell whose MTC is kept if none is sent. -/
def cpF1ServedCellInfoToCell (assocId : AssocId) (mtc : Option Mtc) (info : ServedCellInfo) :
    Cell where
  assocId := assocId
  cellId := info.nrCellid
  pci := info.nrPci
  plmn := info.plmn
  tac := info.tac.getD 0 % 2 ^ 16
  mode := info.mode
  mtc := if 0 < info.measurementTimingConfig.length then
    cfg.extractMtc info.measurementTimingConfig else mtc

/-- An identifier read as an `int` and compared as an unsigned number of 64 bits. -/
def cellIdKey (cellId : ℕ) : ℕ :=
  let key := cellId % 2 ^ 32
  if key < 2 ^ 31 then key else key + (2 ^ 64 - 2 ^ 32)

def getCellNeighbourList (configs : List NeighbourCellConfiguration) (cellId : ℕ) :
    Option NeighbourCellConfiguration :=
  configs.find? fun config => config.nrCellId = cellIdKey cellId

def getSsbArfcn (c : Cell) : Outcome ℤ :=
  match c.mtc with
  | some mtc => .done mtc.carrierFreq
  | none => .fault .assertion

/-- The bytes of one SIB for a cell; none if there is nothing to send. -/
def encodeSib (c : Cell) : SibType → Outcome (Option Bytes)
  | .sib2 =>
    match c.mtc with
    | none => .fault .nullPointer
    | some mtc => .done (some (cfg.sib2 mtc))
  | .sib3 =>
    match cfg.neighbourCellConfiguration.bind (getCellNeighbourList · c.cellId) with
    | none => .done none
    | some neighbours => do
      let arfcn ← getSsbArfcn c
      return cfg.sib3 neighbours arfcn
  | .sib4 =>
    match cfg.neighbourCellConfiguration.bind (getCellNeighbourList · c.cellId) with
    | none => .done none
    | some neighbours => do
      let arfcn ← getSsbArfcn c
      return cfg.sib4 neighbours arfcn

def f1apMaxNoSibTypes : ℕ := 32

/-- The loop over the configured SIBs. -/
def siMessages (c : Cell) : List (SibType × Bytes) → List SibType →
    Outcome (List (SibType × Bytes))
  | msgs, [] => .done msgs
  | msgs, sib :: sibs => do
    let enc ← encodeSib cfg c sib
    match enc with
    | none | some [] => siMessages c msgs sibs
    | some (b :: bytes) =>
      Outcome.assertFatal (msgs.length < f1apMaxNoSibTypes)
      siMessages c (msgs ++ [(sib, b :: bytes)]) sibs

/-! ### F1 procedures -/

/-- The loop over the cells of a request; the DU is in the registry already. -/
def setupCells (assocId : AssocId) : Registry → List CellToActivate →
    List (ServedCellInfo × Option SystemInfo) → Outcome (Registry × F1Reply)
  | r, resp, [] => .done (r, .setupResponse resp)
  | r, resp, (info, sysInfo) :: rest =>
    if !plmnMatches cfg info then .done (r, .setupFailure .plmnNotServedByTheGnbCu)
    else do
      let valid ← neighboursValid cfg info
      if !valid then return (r, .setupFailure .miscUnspecified)
      else if !sysInfoAccepted cfg sysInfo then return (r, .setupFailure .semanticError)
      else
        let new := cpF1ServedCellInfoToCell cfg assocId none info
        let p := r.next
        let r := r.alloc new
        match r.addCell p new.cellId with
        | none => return (r.free p, .setupFailure .cellNotAvailable)
        | some r =>
          let duCells := ((r.getDuByAssocId assocId).map Du.cells).getD []
          match r.addCellToDu duCells p new with
          | none => .fault .assertion
          | some duCells =>
            let r := r.setDuCells assocId duCells
            let siMsg ← siMessages cfg new [] cfg.sibs
            let cell := ⟨info.plmn, info.nrCellid, info.nrPci, siMsg⟩
            setupCells assocId r (resp ++ [cell]) rest

def processF1SetupReq (r : Registry) (req : F1SetupReq) (assocId : AssocId) :
    Outcome (Registry × F1Reply) := do
  Outcome.assertFatal (assocId ≠ 0)
  if r.dus.any fun du => du.gnbDuId = req.gnbDuId then
    return (r, .setupFailure .miscUnspecified)
  else
    match r.addDu ⟨assocId, req.gnbDuId, []⟩ with
    | none => .fault .assertion
    | some r => setupCells cfg assocId r [] req.cell

/-- Change a cell; none if it is unknown, or if its new identifier or PCI is taken. -/
def updateCellInfo (r : Registry) (oldNci : ℕ) (info : ServedCellInfo) :
    Outcome (Option Registry) :=
  match r.getCellByCellId oldNci with
  | none => return none
  | some p => do
    let c ← r.deref (some p)
    let taken := match r.getDuByAssocId c.assocId with
      | none => false
      | some du => (r.getCellByPciForDu du.cells info.nrPci).any (· ≠ p)
    if c.pci ≠ info.nrPci ∧ taken = true then return none
    else
      let new := cpF1ServedCellInfoToCell cfg c.assocId c.mtc info
      if oldNci = info.nrCellid then return some (r.write p new)
      else if (r.getCellByCellId info.nrCellid).any (· ≠ p) then return none
      else
        let r ← r.removeNode p
        match (r.write p new).insertNode p new.cellId with
        | none => .fault .assertion
        | some r => return some r

/-- Carry out an update; the flag says that it is acknowledged. -/
def processDuConfigurationUpdate (r : Registry) (update : DuConfigurationUpdate)
    (assocId : AssocId) : Outcome (Registry × Bool) := do
  Outcome.assertFatal (assocId ≠ 0)
  match r.getDuByAssocId assocId with
  | none => return (r, false)
  | some du =>
    if update.cellToAdd.any fun info => (r.getCellByCellId info.nrCellid).isSome ||
        (r.getCellByPciForDu du.cells info.nrPci).isSome then
      return (r, false)
    else
      match update.cellToModify with
      | [] => return (r, true)
      | [modify] =>
        if !plmnMatches cfg modify.info then return (r, false)
        else
          -- the pointer is read before it is checked
          let c ← r.deref (r.getCellByCellId modify.oldNrCellid)
          if c.assocId ≠ du.assocId then return (r, false)
          else
            let updated ← updateCellInfo cfg r modify.oldNrCellid modify.info
            match updated with
            | none => return (r, false)
            | some r => return (r, true)
      | _ :: _ :: _ => .fault .assertion

/-! ### Serving cells of UEs -/

def rrcMaxNumServingCells : ℕ := 32
def rrcPcellIndex : ℕ := 0

/-- `ue_serving_cell_t`. -/
structure ServingCell where
  nci : ℕ
  servingCellId : ℕ
  assocId : AssocId
  deriving DecidableEq

/-- A UE context with the F1 data stored for it. -/
structure Ue where
  rrcUeId : ℕ
  servingCells : List ServingCell
  f1DuAssocId : Option AssocId
  deriving DecidableEq

def getUeServingCellById (ue : Ue) (servingCellId : ℕ) : Option ServingCell :=
  ue.servingCells.find? fun s => s.servingCellId = servingCellId

/-- Add a serving cell; the flag says whether an entry is returned. -/
def addUeServingCell (ue : Ue) (c : Cell) (servingCellId : ℕ) : Outcome (Ue × Bool) := do
  Outcome.assertFatal (servingCellId < rrcMaxNumServingCells)
  if rrcMaxNumServingCells ≤ ue.servingCells.length then return (ue, false)
  else
    match getUeServingCellById ue servingCellId with
    | some existing => return (ue, existing.nci = c.cellId)
    | none =>
      let newCell : ServingCell := ⟨c.cellId, servingCellId, c.assocId⟩
      if servingCellId = rrcPcellIndex then
        Outcome.assertFatal (ue.f1DuAssocId = some c.assocId)
        -- the PCell goes to the front
        return ({ ue with servingCells := newCell :: ue.servingCells }, true)
      else return ({ ue with servingCells := ue.servingCells ++ [newCell] }, true)

def removeUeScellsFromDu (ue : Ue) (assocId : AssocId) : Ue :=
  { ue with servingCells := ue.servingCells.filter fun s => s.assocId ≠ assocId }

def ueGetPcellEntry (ue : Ue) : Outcome (Option ServingCell) :=
  match ue.servingCells with
  | [] => .done none
  | first :: _ => do
    Outcome.assertFatal (first.servingCellId = rrcPcellIndex)
    return some first

def getPcellForUe (r : Registry) (ue : Ue) : Outcome (Option CellPtr) := do
  let entry ← ueGetPcellEntry ue
  match entry with
  | none => return none
  | some pcell => return r.getCellByCellId pcell.nci

def updateUePcell (ue : Ue) (c : Cell) : Outcome (Ue × Bool) := do
  let existing ← ueGetPcellEntry ue
  match existing with
  | none => addUeServingCell ue c rrcPcellIndex
  | some pcell => addUeServingCell (removeUeScellsFromDu ue pcell.assocId) c rrcPcellIndex

structure CuState where
  registry : Registry
  ues : List Ue

/-- The loop over the UEs: UEs of the DU are released in SA mode and removed otherwise. -/
def invalidateDuConnections (assocId : AssocId) : List Ue → Outcome (List Ue)
  | [] => .done []
  | ue :: ues => do
    let ue := removeUeScellsFromDu ue assocId
    match ue.f1DuAssocId with
    | none => .fault .assertion
    | some du =>
      let rest ← invalidateDuConnections assocId ues
      if du ≠ assocId then return ue :: rest
      else if cfg.saMode then return { ue with f1DuAssocId := some 0 } :: rest
      else return rest

def processF1LostConnection (s : CuState) (assocId : AssocId) : Outcome CuState := do
  Outcome.assertFatal (assocId ≠ 0)
  match s.registry.getDuByAssocId assocId with
  | none => return s
  | some du =>
    let registry ← s.registry.cleanupDu du
    let ues ← invalidateDuConnections cfg assocId s.ues
    return { registry, ues }

end LlmHric.Rrc
