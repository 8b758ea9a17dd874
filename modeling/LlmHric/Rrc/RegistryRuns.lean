import LlmHric.Library.Run
import LlmHric.Rrc.CellUpdate
import LlmHric.Rrc.F1Setup

/-! The CU starts without DUs, cells and UEs. It accepts setups, handles configuration updates and
lost connections, and keeps the serving cells of its UEs. In every state of every run DUs and cells
point to each other; a null cell is read in a run exactly when an update names a cell that there is
not. -/

namespace LlmHric.Rrc

open Checked Run

variable (cfg : RrcConfig) {r : Registry} {s t : CuState} {a : AssocId}

inductive CuOp
  | f1Setup (req : F1SetupReq) (assocId : AssocId)
  | duConfigurationUpdate (update : DuConfigurationUpdate) (assocId : AssocId)
  | f1LostConnection (assocId : AssocId)
  | createUeContext (rrcUeId : ℕ) (duAssocId : AssocId)
  | updateF1UeData (rrcUeId : ℕ) (duAssocId : AssocId)
  | addUeServingCell (rrcUeId cellId servingCellId : ℕ)
  | updateUePcell (rrcUeId cellId : ℕ)
  deriving DecidableEq

namespace CuState

/-- Write a UE. -/
def setUe (s : CuState) (ue : Ue) : CuState :=
  { s with ues := s.ues.map fun u => if u.rrcUeId = ue.rrcUeId then ue else u }

/-- Change the serving cells of a UE with a cell of the tree. -/
def withCell (s : CuState) (rrcUeId cellId : ℕ) (f : Ue → Cell → Outcome (Ue × Bool)) :
    Outcome CuState :=
  match s.ues.find? fun ue => ue.rrcUeId = rrcUeId, s.registry.getCellByCellId cellId with
  | some ue, some p => do
    let c ← s.registry.deref (some p)
    let result ← f ue c
    return s.setUe result.1
  | _, _ => .refused

/-- An operation; a setup that is answered by a failure is refused. -/
def exec (s : CuState) : CuOp → Outcome CuState
  | .f1Setup req assocId => do
    let result ← processF1SetupReq cfg s.registry req assocId
    match result with
    | (registry, .setupResponse _) => return { s with registry }
    | (_, .setupFailure _) => .refused
  | .duConfigurationUpdate update assocId => do
    let result ← processDuConfigurationUpdate cfg s.registry update assocId
    return { s with registry := result.1 }
  | .f1LostConnection assocId => processF1LostConnection cfg s assocId
  | .createUeContext rrcUeId duAssocId =>
    if s.ues.any fun ue => ue.rrcUeId = rrcUeId then .refused
    else return { s with ues := s.ues ++ [⟨rrcUeId, [], some duAssocId⟩] }
  | .updateF1UeData rrcUeId duAssocId =>
    match s.ues.find? fun ue => ue.rrcUeId = rrcUeId with
    | none => .refused
    | some ue => return s.setUe { ue with f1DuAssocId := some duAssocId }
  | .addUeServingCell rrcUeId cellId servingCellId =>
    s.withCell rrcUeId cellId fun ue c => addUeServingCell ue c servingCellId
  | .updateUePcell rrcUeId cellId => s.withCell rrcUeId cellId updateUePcell

end CuState

def CuStep (op : CuOp) (s t : CuState) : Prop := s.exec cfg op = .done t

def CuInit (s : CuState) : Prop := s = ⟨Registry.empty, []⟩

/-! ### Lost connections -/

theorem invalidateDuConnections_ne_nullPointer {ues : List Ue} :
    invalidateDuConnections cfg a ues ≠ .fault .nullPointer := by
  induction ues with
  | nil =>
    intro hfault
    cases hfault
  | cons ue ues ih =>
    intro hfault
    unfold invalidateDuConnections at hfault
    dsimp only at hfault
    cases hdu : (removeUeScellsFromDu ue a).f1DuAssocId with
    | none =>
      rw [hdu] at hfault
      cases hfault
    | some du =>
      rw [hdu] at hfault
      rcases Outcome.bind_eq_fault_iff.mp hfault with hrest | ⟨rest, -, hrest⟩
      · exact ih hrest
      · split_ifs at hrest

/-- The UEs that remain have lost their serving cells of the DU. -/
theorem mem_invalidateDuConnections {ues ues' : List Ue}
    (hdone : invalidateDuConnections cfg a ues = .done ues') {ue' : Ue} (hue' : ue' ∈ ues') :
    ∃ ue ∈ ues, ue'.servingCells = (removeUeScellsFromDu ue a).servingCells := by
  induction ues generalizing ues' with
  | nil =>
    cases hdone
    cases hue'
  | cons ue ues ih =>
    unfold invalidateDuConnections at hdone
    dsimp only at hdone
    cases hdu : (removeUeScellsFromDu ue a).f1DuAssocId with
    | none =>
      rw [hdu] at hdone
      cases hdone
    | some du =>
      rw [hdu] at hdone
      obtain ⟨rest, hrest, hdone⟩ := Outcome.bind_eq_done_iff.mp hdone
      have hcases : ue'.servingCells = (removeUeScellsFromDu ue a).servingCells ∨ ue' ∈ rest := by
        split_ifs at hdone <;> cases hdone
        · rcases List.mem_cons.mp hue' with rfl | hmem
          · exact .inl rfl
          · exact .inr hmem
        · rcases List.mem_cons.mp hue' with rfl | hmem
          · exact .inl rfl
          · exact .inr hmem
        · exact .inr hue'
      rcases hcases with hsame | hmem
      · exact ⟨ue, List.mem_cons_self .., hsame⟩
      · obtain ⟨u, hu, hsame⟩ := ih hrest hmem
        exact ⟨u, List.mem_cons_of_mem _ hu, hsame⟩

theorem of_processF1LostConnection (h : RegistryOk s.registry)
    (hdone : processF1LostConnection cfg s a = .done t) :
    t = s ∨ ∃ du ∈ s.registry.dus, du.assocId = a ∧ DuRemoved s.registry t.registry du ∧
      RegistryOk t.registry ∧ invalidateDuConnections cfg a s.ues = .done t.ues := by
  unfold processF1LostConnection at hdone
  obtain ⟨-, -, hdone⟩ := Outcome.bind_eq_done_iff.mp hdone
  cases hfind : s.registry.getDuByAssocId a with
  | none =>
    rw [hfind] at hdone
    cases hdone
    exact .inl rfl
  | some du =>
    rw [hfind] at hdone
    obtain ⟨hdu, hassoc⟩ := h.getDuByAssocId_iff.mp hfind
    obtain ⟨r', hclean, hremoved, hok⟩ := h.cleanupDu hdu
    dsimp only at hdone
    rw [hclean, Outcome.done_bind] at hdone
    obtain ⟨ues, hues, hdone⟩ := Outcome.bind_eq_done_iff.mp hdone
    cases hdone
    exact .inr ⟨du, hdu, hassoc, hremoved, hok, hues⟩

theorem processF1LostConnection_ne_nullPointer (h : RegistryOk s.registry) :
    processF1LostConnection cfg s a ≠ .fault .nullPointer := by
  unfold processF1LostConnection
  by_cases ha : a ≠ 0
  swap
  · rw [Outcome.assertFatal_of_not ha]
    exact fun hfault => by cases hfault
  rw [Outcome.assertFatal_of ha, Outcome.done_bind]
  cases hfind : s.registry.getDuByAssocId a with
  | none => exact fun hfault => by cases hfault
  | some du =>
    obtain ⟨r', hclean, -⟩ := h.cleanupDu (h.getDuByAssocId_iff.mp hfind).1
    dsimp only
    rw [hclean, Outcome.done_bind]
    intro hfault
    rcases Outcome.bind_eq_fault_iff.mp hfault with hues | ⟨ues, -, hret⟩
    · exact invalidateDuConnections_ne_nullPointer cfg hues
    · cases hret

/-! ### One step -/

/-- Serving cells are changed without the registry. -/
theorem of_withCell {rrcUeId cellId : ℕ} {f : Ue → Cell → Outcome (Ue × Bool)}
    (hdone : s.withCell rrcUeId cellId f = .done t) :
    ∃ ue ∈ s.ues, ∃ p c ue' b, s.registry.getCellByCellId cellId = some p ∧
      s.registry.heap p = some c ∧ f ue c = .done (ue', b) ∧ t = s.setUe ue' := by
  unfold CuState.withCell at hdone
  cases hue : s.ues.find? fun ue => ue.rrcUeId = rrcUeId with
  | none =>
    rw [hue] at hdone
    cases hdone
  | some ue =>
    cases hp : s.registry.getCellByCellId cellId with
    | none =>
      rw [hue, hp] at hdone
      cases hdone
    | some p =>
      rw [hue, hp] at hdone
      obtain ⟨c, hc, hdone⟩ := Outcome.bind_eq_done_iff.mp hdone
      obtain ⟨⟨ue', b⟩, hf, hdone⟩ := Outcome.bind_eq_done_iff.mp hdone
      cases hdone
      exact ⟨ue, List.mem_of_find?_eq_some hue, p, c, ue', b, rfl,
        RegistryOk.deref_some_eq_done_iff.mp hc, hf, rfl⟩

/-- What an operation may have done, with the relation between DUs and cells kept. -/
inductive StepEffect (s : CuState) : CuOp → CuState → Prop
  | setup {req : F1SetupReq} {assocId : AssocId} {registry : Registry} {nodes : List CellNode}
      (hok : RegistryOk registry) (hreg : Registered cfg s.registry registry req assocId nodes) :
      StepEffect s (.f1Setup req assocId) { s with registry }
  | ignored {update : DuConfigurationUpdate} {assocId : AssocId} :
      StepEffect s (.duConfigurationUpdate update assocId) s
  | updated {update : DuConfigurationUpdate} {assocId : AssocId} {registry : Registry}
      {modify : CellToModify} {p : CellPtr} {c : Cell} {du : Du}
      (hok : RegistryOk registry) (hu : CellUpdate cfg s.registry update assocId modify p c du)
      (hch : CellChanged s.registry registry p (changedCell cfg c modify.info)) :
      StepEffect s (.duConfigurationUpdate update assocId) { s with registry }
  | unconnected {assocId : AssocId} : StepEffect s (.f1LostConnection assocId) s
  | lost {du : Du} {t : CuState} (hok : RegistryOk t.registry) (hdu : du ∈ s.registry.dus)
      (hremoved : DuRemoved s.registry t.registry du)
      (hues : invalidateDuConnections cfg du.assocId s.ues = .done t.ues) :
      StepEffect s (.f1LostConnection du.assocId) t
  | created {rrcUeId : ℕ} {duAssocId : AssocId} :
      StepEffect s (.createUeContext rrcUeId duAssocId)
        { s with ues := s.ues ++ [⟨rrcUeId, [], some duAssocId⟩] }
  | f1Data {rrcUeId : ℕ} {duAssocId : AssocId} {ue : Ue} (hue : ue ∈ s.ues) :
      StepEffect s (.updateF1UeData rrcUeId duAssocId)
        (s.setUe { ue with f1DuAssocId := some duAssocId })
  | added {rrcUeId cellId servingCellId : ℕ} {ue ue' : Ue} {p : CellPtr} {c : Cell} {b : Bool}
      (hue : ue ∈ s.ues) (hp : s.registry.getCellByCellId cellId = some p)
      (hc : s.registry.heap p = some c)
      (hadd : addUeServingCell ue c servingCellId = .done (ue', b)) :
      StepEffect s (.addUeServingCell rrcUeId cellId servingCellId) (s.setUe ue')
  | pcell {rrcUeId cellId : ℕ} {ue ue' : Ue} {p : CellPtr} {c : Cell} {b : Bool}
      (hue : ue ∈ s.ues) (hp : s.registry.getCellByCellId cellId = some p)
      (hc : s.registry.heap p = some c) (hadd : updateUePcell ue c = .done (ue', b)) :
      StepEffect s (.updateUePcell rrcUeId cellId) (s.setUe ue')

theorem CuStep.effect {op : CuOp} (h : RegistryOk s.registry) (hs : CuStep cfg op s t) :
    StepEffect cfg s op t := by
  unfold CuStep at hs
  cases op with
  | f1Setup req a =>
    obtain ⟨⟨registry, reply⟩, hrun, hdone⟩ := Outcome.bind_eq_done_iff.mp hs
    cases reply with
    | setupFailure cause => cases hdone
    | setupResponse resp =>
      cases hdone
      have ha : a ≠ 0 := by
        rintro rfl
        cases hrun
      obtain ⟨htaken, hacc⟩ := accepted_of_processF1SetupReq cfg h ha hrun
      obtain ⟨r', resp', nodes, hrun', hok, hreg⟩ :=
        processF1SetupReq_of_accepted cfg h ha htaken hacc
      rw [hrun] at hrun'
      cases hrun'
      exact .setup hok hreg
  | duConfigurationUpdate update a =>
    obtain ⟨⟨registry, ack⟩, hrun, hdone⟩ := Outcome.bind_eq_done_iff.mp hs
    cases hdone
    rcases of_processDuConfigurationUpdate cfg h hrun with rfl | ⟨modify, p, c, du, hu, hch, hok⟩
    · exact .ignored
    · exact .updated hok hu hch
  | f1LostConnection a =>
    rcases of_processF1LostConnection cfg h hs with rfl | ⟨du, hdu, rfl, hremoved, hok, hues⟩
    · exact .unconnected
    · exact .lost hok hdu hremoved hues
  | createUeContext id a =>
    rw [CuState.exec] at hs
    split_ifs at hs
    cases hs
    exact .created
  | updateF1UeData id a =>
    rw [CuState.exec] at hs
    cases hue : s.ues.find? fun ue => ue.rrcUeId = id with
    | none =>
      rw [hue] at hs
      cases hs
    | some ue =>
      rw [hue] at hs
      cases hs
      exact .f1Data (List.mem_of_find?_eq_some hue)
  | addUeServingCell id cellId servingCellId =>
    obtain ⟨ue, hue, p, c, ue', b, hp, hc, hadd, rfl⟩ := of_withCell hs
    exact .added hue hp hc hadd
  | updateUePcell id cellId =>
    obtain ⟨ue, hue, p, c, ue', b, hp, hc, hadd, rfl⟩ := of_withCell hs
    exact .pcell hue hp hc hadd

theorem CuStep.registryOk {op : CuOp} (h : RegistryOk s.registry) (hs : CuStep cfg op s t) :
    RegistryOk t.registry := by
  cases hs.effect cfg h with
  | setup hok | updated hok | lost hok => exact hok
  | ignored | unconnected | created | f1Data | added | pcell => exact h

/-- In every state of a run DUs and cells point to each other. -/
theorem registryOk_of_reach {tr : List CuOp} (h : Reach (CuStep cfg) CuInit tr s) :
    RegistryOk s.registry := by
  refine h.invariant (I := fun s => RegistryOk s.registry) ?_ fun _ _ _ hok hs =>
    hs.registryOk cfg hok
  rintro s rfl
  exact registryOk_empty

/-! ### Null cells -/

/-- Each cell of the tree is in the array of one connected DU, whose association it has, and each
cell of an array is in the tree under its identifier; the counters are exact, and identifiers and
the PCIs of a DU are unique. -/
structure DusAndCellsAgree (r : Registry) : Prop where
  cell_du : ∀ node ∈ r.cells, ∃ c, r.heap node.cell = some c ∧
    ∃ du ∈ r.dus, c.assocId = du.assocId ∧ ∀ e ∈ r.dus, node.cell ∈ e.cells ↔ e = du
  du_cell : ∀ du ∈ r.dus, ∀ p ∈ du.cells, ∃ c, r.heap p = some c ∧
    r.getCellByCellId c.cellId = some p
  numDus : r.numDus = r.dus.length
  numCells : r.numCells = r.cells.length
  assocs : (r.dus.map Du.assocId).Nodup
  cellIds : ∀ n ∈ r.cells, ∀ m ∈ r.cells, ∀ c d, r.heap n.cell = some c →
    r.heap m.cell = some d → c.cellId = d.cellId → n = m
  pcis : ∀ du ∈ r.dus, du.cells.Nodup ∧ ∀ p ∈ du.cells, ∀ q ∈ du.cells, p ≠ q →
    ∀ c d, r.heap p = some c → r.heap q = some d → c.pci ≠ d.pci

theorem RegistryOk.agree (h : RegistryOk r) : DusAndCellsAgree r := by
  refine ⟨?_, ?_, h.numDus, h.numCells, h.dus_nodup, ?_, ?_⟩
  · intro node hnode
    obtain ⟨c, hc, -, du, hdu, hassoc, -⟩ := h.node node hnode
    refine ⟨c, hc, du, hdu, hassoc.symm, fun e he => ?_⟩
    rw [h.mem_cells_iff he hnode hc]
    constructor
    · intro hsame
      exact List.inj_on_of_nodup_map h.dus_nodup he hdu (hsame.symm.trans hassoc.symm)
    · rintro rfl
      exact hassoc.symm
  · intro du hdu p hp
    obtain ⟨c, hc, -, hin⟩ := h.du_cell du hdu p hp
    exact ⟨c, hc, h.getCellByCellId_iff.mpr hin⟩
  · intro n hn m hm c d hc hd hid
    obtain ⟨c', hc', hkey, -⟩ := h.node n hn
    obtain ⟨d', hd', hkey', -⟩ := h.node m hm
    obtain rfl := Option.some.inj (hc.symm.trans hc')
    obtain rfl := Option.some.inj (hd.symm.trans hd')
    exact List.inj_on_of_nodup_map h.keys_nodup hn hm (hkey.symm.trans (hid.trans hkey'))
  · intro du hdu
    exact ⟨h.nodup_cells hdu, fun p hp q hq hpq c d hc hd => h.pci_ne hdu hp hq hpq hc hd⟩

/-- An operation on known DUs reads a null cell. An accepted setup has returned and is none. -/
def NullCellRead (s : CuState) (op : CuOp) : Prop :=
  (∀ req assocId, op ≠ .f1Setup req assocId) ∧ s.exec cfg op = .fault .nullPointer

/-- An operation is an update that names a cell there is not. -/
def UnknownCellUpdate (s : CuState) (op : CuOp) : Prop :=
  ∃ update assocId, op = .duConfigurationUpdate update assocId ∧
    UpdatesUnknownCell cfg s.registry update assocId

theorem addUeServingCell_ne_nullPointer {ue : Ue} {c : Cell} {id : ℕ} :
    addUeServingCell ue c id ≠ .fault .nullPointer := by
  refine Outcome.bind_ne_fault Outcome.assertFatal_ne_nullPointer fun _ => ?_
  by_cases hfull : rrcMaxNumServingCells ≤ ue.servingCells.length
  · rw [if_pos hfull]
    exact fun hfault => by cases hfault
  rw [if_neg hfull]
  cases getUeServingCellById ue id with
  | some existing => exact fun hfault => by cases hfault
  | none =>
    dsimp only
    by_cases hid : id = rrcPcellIndex
    · rw [if_pos hid]
      exact Outcome.bind_ne_fault Outcome.assertFatal_ne_nullPointer fun _ hfault => by cases hfault
    · rw [if_neg hid]
      exact fun hfault => by cases hfault

theorem ueGetPcellEntry_ne_nullPointer {ue : Ue} : ueGetPcellEntry ue ≠ .fault .nullPointer := by
  unfold ueGetPcellEntry
  cases ue.servingCells with
  | nil => exact fun hfault => by cases hfault
  | cons first rest =>
    exact Outcome.bind_ne_fault Outcome.assertFatal_ne_nullPointer fun _ hfault => by cases hfault

theorem updateUePcell_ne_nullPointer {ue : Ue} {c : Cell} :
    updateUePcell ue c ≠ .fault .nullPointer := by
  refine Outcome.bind_ne_fault ueGetPcellEntry_ne_nullPointer fun existing => ?_
  cases existing with
  | none => exact addUeServingCell_ne_nullPointer
  | some pcell => exact addUeServingCell_ne_nullPointer

theorem withCell_ne_nullPointer {id cellId : ℕ} {f : Ue → Cell → Outcome (Ue × Bool)}
    (hf : ∀ ue c, f ue c ≠ .fault .nullPointer) :
    s.withCell id cellId f ≠ .fault .nullPointer := by
  unfold CuState.withCell
  split
  · rename_i ue p _ _
    refine Outcome.bind_ne_fault ?_ fun c => ?_
    · cases hp : s.registry.heap p <;> simp [Registry.deref, hp]
    · exact Outcome.bind_ne_fault (hf ue c) fun _ hfault => by cases hfault
  · exact fun hfault => by cases hfault

/-- In a valid state only an update that names an unknown cell reads a null cell. -/
theorem nullCellRead_iff {op : CuOp} (h : RegistryOk s.registry) :
    NullCellRead cfg s op ↔ UnknownCellUpdate cfg s op := by
  constructor
  · rintro ⟨hsetup, hfault⟩
    cases op with
    | f1Setup req a => exact absurd rfl (hsetup req a)
    | duConfigurationUpdate update a =>
      refine ⟨update, a, rfl, ?_⟩
      rcases Outcome.bind_eq_fault_iff.mp hfault with hrun | ⟨_, -, hret⟩
      · exact (processDuConfigurationUpdate_eq_nullPointer_iff cfg h).mp hrun
      · cases hret
    | f1LostConnection a => exact absurd hfault (processF1LostConnection_ne_nullPointer cfg h)
    | createUeContext id a =>
      rw [CuState.exec] at hfault
      split_ifs at hfault
    | updateF1UeData id a =>
      rw [CuState.exec] at hfault
      cases hue : s.ues.find? fun ue => ue.rrcUeId = id <;> rw [hue] at hfault <;> cases hfault
    | addUeServingCell id cellId servingCellId =>
      exact absurd hfault (withCell_ne_nullPointer fun _ _ => addUeServingCell_ne_nullPointer)
    | updateUePcell id cellId =>
      exact absurd hfault (withCell_ne_nullPointer fun _ _ => updateUePcell_ne_nullPointer)
  · rintro ⟨update, a, rfl, hunknown⟩
    refine ⟨fun _ _ heq => (by cases heq), ?_⟩
    rw [CuState.exec, (processDuConfigurationUpdate_eq_nullPointer_iff cfg h).mpr hunknown]
    rfl

/-- All along a run DUs and cells agree and no null cell is read exactly when no update names an
unknown cell. -/
theorem dusAndCellsAgree_iff (tr : List CuOp) :
    (∀ pre s, pre <+: tr → Reach (CuStep cfg) CuInit pre s → DusAndCellsAgree s.registry ∧
        ∀ op, pre ++ [op] <+: tr → ¬ NullCellRead cfg s op) ↔
      ∀ pre s op, pre ++ [op] <+: tr → Reach (CuStep cfg) CuInit pre s →
        ¬ UnknownCellUpdate cfg s op := by
  constructor
  · intro hagree pre s op hpre hreach
    rw [← nullCellRead_iff cfg (registryOk_of_reach cfg hreach)]
    exact (hagree pre s ((List.prefix_append _ _).trans hpre) hreach).2 op hpre
  · intro hknown pre s hpre hreach
    have hok := registryOk_of_reach cfg hreach
    refine ⟨hok.agree, fun op hop => ?_⟩
    rw [nullCellRead_iff cfg hok]
    exact hknown pre s op hop hreach

/-- A cell of the CU's PLMN. -/
def homeCell (nrCellid nrPci : ℕ) : ServedCellInfo :=
  ⟨⟨208, 99, 2⟩, nrCellid, nrPci, none, .tdd ⟨78, 640000, 1, 106⟩, []⟩

/-- A DU with one cell comes up and asks to modify another. -/
theorem nullCellRead_unknownCell :
    ¬ ∀ pre s, pre <+: [.f1Setup ⟨3584, [(homeCell 7 0, none)]⟩ 1,
        .duConfigurationUpdate ⟨[], [⟨8, homeCell 9 0⟩]⟩ 1] →
      Reach (CuStep smallConfig) CuInit pre s → DusAndCellsAgree s.registry ∧
        ∀ op, pre ++ [op] <+: [.f1Setup ⟨3584, [(homeCell 7 0, none)]⟩ 1,
          .duConfigurationUpdate ⟨[], [⟨8, homeCell 9 0⟩]⟩ 1] →
            ¬ NullCellRead smallConfig s op := by
  intro hagree
  obtain ⟨s, hs⟩ : ∃ s, CuStep smallConfig (.f1Setup ⟨3584, [(homeCell 7 0, none)]⟩ 1)
      ⟨Registry.empty, []⟩ s := ⟨_, rfl⟩
  obtain ⟨-, hnone⟩ := hagree _ s ⟨_, rfl⟩ (.first rfl hs)
  refine hnone _ ⟨_, List.append_nil _⟩ ⟨fun _ _ heq => (by cases heq), ?_⟩
  cases hs
  rfl

end LlmHric.Rrc
