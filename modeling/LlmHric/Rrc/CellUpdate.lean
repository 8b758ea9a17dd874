import LlmHric.Rrc.RegistryInvariant

/-! An update reaches the search for the cell to modify after checks of the DU, of the cells to add
and of the PLMN. The cell that is found is read at once, also when none is found. A cell of the DU
is changed if its new identifier and PCI are free; else nothing happens. -/

namespace LlmHric.Rrc

open Checked

variable (cfg : RrcConfig) {r r' : Registry} {du : Du} {c : Cell} {p : CellPtr} {a : AssocId}
  {info : ServedCellInfo} {update : DuConfigurationUpdate} {modify : CellToModify}

/-! ### Checks before the search -/

/-- The DU is connected, the cells to add are new, and one cell of the PLMN is modified. -/
structure CellSearched (r : Registry) (update : DuConfigurationUpdate) (a : AssocId) (du : Du)
    (modify : CellToModify) : Prop where
  ne_zero : a ≠ 0
  connected : r.getDuByAssocId a = some du
  add : ∀ info ∈ update.cellToAdd, r.getCellByCellId info.nrCellid = none ∧
    r.getCellByPciForDu du.cells info.nrPci = none
  cellToModify : update.cellToModify = [modify]
  plmn : plmnMatches cfg modify.info = true

theorem cellToAdd_any_eq_false_iff :
    (update.cellToAdd.any fun info => (r.getCellByCellId info.nrCellid).isSome ||
      (r.getCellByPciForDu du.cells info.nrPci).isSome) = false ↔
    ∀ info ∈ update.cellToAdd, r.getCellByCellId info.nrCellid = none ∧
      r.getCellByPciForDu du.cells info.nrPci = none := by
  simp

theorem processDuConfigurationUpdate_of_searched (h : CellSearched cfg r update a du modify) :
    processDuConfigurationUpdate cfg r update a = (do
      let c ← r.deref (r.getCellByCellId modify.oldNrCellid)
      if c.assocId ≠ du.assocId then return (r, false)
      else
        let updated ← updateCellInfo cfg r modify.oldNrCellid modify.info
        match updated with
        | none => return (r, false)
        | some r => return (r, true)) := by
  rw [processDuConfigurationUpdate, Outcome.assertFatal_of h.ne_zero, Outcome.done_bind,
    h.connected]
  dsimp only
  rw [cellToAdd_any_eq_false_iff.mpr h.add, if_neg Bool.false_ne_true, h.cellToModify]
  dsimp only
  rw [h.plmn, Bool.not_true]
  exact if_neg Bool.false_ne_true

/-- Without a search nothing happens. -/
theorem processDuConfigurationUpdate_of_not_searched
    (h : ¬ ∃ du modify, CellSearched cfg r update a du modify) :
    (∃ ack, processDuConfigurationUpdate cfg r update a = .done (r, ack)) ∨
      processDuConfigurationUpdate cfg r update a = .fault .assertion := by
  unfold processDuConfigurationUpdate
  by_cases ha : a ≠ 0
  swap
  · rw [Outcome.assertFatal_of_not ha]
    exact .inr rfl
  rw [Outcome.assertFatal_of ha, Outcome.done_bind]
  cases hdu : r.getDuByAssocId a with
  | none => exact .inl ⟨false, rfl⟩
  | some du =>
    dsimp only
    cases hadd : update.cellToAdd.any fun info => (r.getCellByCellId info.nrCellid).isSome ||
        (r.getCellByPciForDu du.cells info.nrPci).isSome with
    | true => exact .inl ⟨false, rfl⟩
    | false =>
      rw [if_neg Bool.false_ne_true]
      match hmod : update.cellToModify with
      | [] => exact .inl ⟨true, rfl⟩
      | _ :: _ :: _ => exact .inr rfl
      | [modify] =>
        cases hplmn : plmnMatches cfg modify.info with
        | false =>
          refine .inl ⟨false, ?_⟩
          dsimp only
          rw [hplmn]
          rfl
        | true =>
          exact absurd ⟨du, modify, ha, hdu, cellToAdd_any_eq_false_iff.mp hadd, hmod, hplmn⟩ h

/-! ### The change of a cell -/

/-- The new identifier and PCI belong to no other cell. -/
structure Changeable (r : Registry) (du : Du) (p : CellPtr) (c : Cell)
    (info : ServedCellInfo) : Prop where
  pci : c.pci ≠ info.nrPci → ∀ q, r.getCellByPciForDu du.cells info.nrPci = some q → q = p
  cellId : ∀ q, r.getCellByCellId info.nrCellid = some q → q = p

/-- The cell with the new contents. -/
def changedCell (c : Cell) (info : ServedCellInfo) : Cell :=
  cpF1ServedCellInfoToCell cfg c.assocId c.mtc info

namespace RegistryOk

theorem updateCellInfo_of_not_changeable (h : RegistryOk r) (hdu : du ∈ r.dus) {oldNci : ℕ}
    (hp : r.getCellByCellId oldNci = some p) (hc : r.heap p = some c)
    (hassoc : c.assocId = du.assocId) (hnot : ¬ Changeable r du p c info) :
    updateCellInfo cfg r oldNci info = .done none := by
  have hfind : r.getDuByAssocId c.assocId = some du := h.getDuByAssocId_iff.mpr ⟨hdu, hassoc.symm⟩
  rw [updateCellInfo, hp]
  dsimp only
  rw [Registry.deref, hc]
  dsimp only
  rw [Outcome.done_bind, hfind]
  dsimp only
  by_cases hpci : c.pci ≠ info.nrPci ∧
      (r.getCellByPciForDu du.cells info.nrPci).any (· ≠ p) = true
  · rw [if_pos hpci]
    rfl
  rw [if_neg hpci]
  by_cases hid : (r.getCellByCellId info.nrCellid).any (· ≠ p) = true
  · rw [if_neg, if_pos hid]
    · rfl
    · rintro rfl
      rw [hp] at hid
      simp at hid
  · refine absurd ⟨fun hne q hq => ?_, fun q hq => ?_⟩ hnot
    · by_contra hqp
      exact hpci ⟨hne, by rw [hq]; exact decide_eq_true hqp⟩
    · by_contra hqp
      exact hid (by rw [hq]; exact decide_eq_true hqp)

theorem updateCellInfo_of_changeable (h : RegistryOk r) (hdu : du ∈ r.dus) {oldNci : ℕ}
    (hp : r.getCellByCellId oldNci = some p) (hc : r.heap p = some c)
    (hassoc : c.assocId = du.assocId) (hch : Changeable r du p c info) :
    ∃ r', updateCellInfo cfg r oldNci info = .done (some r') ∧
      CellChanged r r' p (changedCell cfg c info) := by
  have hfind : r.getDuByAssocId c.assocId = some du := h.getDuByAssocId_iff.mpr ⟨hdu, hassoc.symm⟩
  have hin : ⟨oldNci, p⟩ ∈ r.cells := h.getCellByCellId_iff.mp hp
  have hpci : ¬ (c.pci ≠ info.nrPci ∧
      (r.getCellByPciForDu du.cells info.nrPci).any (· ≠ p) = true) := by
    rintro ⟨hne, hany⟩
    obtain ⟨q, hq, hqp⟩ := (Option.any_eq_true _ _).mp hany
    exact of_decide_eq_true hqp (hch.pci hne q hq)
  -- the nodes of other cells
  have hrest : ∀ n, n ∈ (r.cells.eraseP fun node => node.cell = p) ↔
      n ∈ r.cells ∧ n.cell ≠ p := by
    intro n
    rw [KeyedList.eraseP_key_eq_filter h.nodup_map_cell, List.mem_filter, decide_eq_true_iff]
  rw [updateCellInfo, hp]
  dsimp only
  rw [Registry.deref, hc]
  dsimp only
  rw [Outcome.done_bind, hfind]
  dsimp only
  rw [if_neg hpci]
  by_cases hsame : oldNci = info.nrCellid
  · refine ⟨r.write p (changedCell cfg c info), by rw [if_pos hsame]; rfl, rfl, rfl, rfl, rfl, rfl,
      rfl, h.keys_nodup, ?_⟩
    intro n
    constructor
    · intro hn
      by_cases hnp : n.cell = p
      · left
        rw [h.node_inj hn hin hnp, hsame]
        rfl
      · exact .inr ⟨hn, hnp⟩
    · rintro (rfl | ⟨hn, -⟩)
      · rw [hsame] at hin
        exact hin
      · exact hn
  · -- the cell takes the place of its new identifier
    have hfree : info.nrCellid ∉ r.cells.map CellNode.key := by
      intro hmem
      obtain ⟨⟨key, q⟩, hq, rfl⟩ := List.mem_map.mp hmem
      obtain rfl := hch.cellId q (h.getCellByCellId_iff.mpr hq)
      exact hsame (congrArg CellNode.key (h.node_inj hin hq rfl))
    have hnone : r.getCellByCellId info.nrCellid = none := getCellByCellId_eq_none_iff.mpr hfree
    have hany : (r.cells.any fun node => node.cell = p) = true :=
      List.any_eq_true.mpr ⟨_, hin, decide_eq_true rfl⟩
    have hstill : info.nrCellid ∉
        (r.cells.eraseP fun node => node.cell = p).map CellNode.key :=
      fun hmem => hfree (List.map_subset _ List.eraseP_subset hmem)
    have hinsert : Registry.getCellByCellId (Registry.write { r with
        cells := r.cells.eraseP fun node => node.cell = p } p (changedCell cfg c info))
          (changedCell cfg c info).cellId = none := getCellByCellId_eq_none_iff.mpr hstill
    refine ⟨{ r with
        cells := (r.cells.eraseP fun node => node.cell = p) ++ [⟨info.nrCellid, p⟩]
        heap := Function.update r.heap p (some (changedCell cfg c info)) },
      ?_, rfl, rfl, rfl, rfl, rfl, ?_, ?_, ?_⟩
    · rw [if_neg hsame, hnone, Option.any_none, if_neg Bool.false_ne_true, Registry.removeNode,
        if_pos hany, Outcome.done_bind]
      change (match Registry.insertNode (Registry.write { r with
        cells := r.cells.eraseP fun node => node.cell = p } p (changedCell cfg c info)) p
          (changedCell cfg c info).cellId with
        | none => Outcome.fault .assertion
        | some r => return some r) = _
      rw [Registry.insertNode, hinsert]
      rfl
    · have hlen := List.length_eraseP_of_mem (p := fun n : CellNode => n.cell = p) hin
        (decide_eq_true rfl)
      have hpos := List.length_pos_of_mem hin
      rw [List.length_append, List.length_singleton]
      omega
    · rw [List.map_append, List.map_singleton, List.nodup_append_comm, List.singleton_append]
      exact List.nodup_cons.mpr ⟨hstill, h.keys_nodup.sublist (List.eraseP_sublist.map _)⟩
    · intro n
      rw [List.mem_append, List.mem_singleton, hrest, or_comm]
      rfl

/-- A change to a free identifier and PCI keeps the relation. -/
theorem changed (h : RegistryOk r) (hdu : du ∈ r.dus) {oldNci : ℕ}
    (hp : r.getCellByCellId oldNci = some p) (hc : r.heap p = some c)
    (hassoc : c.assocId = du.assocId) (hch : Changeable r du p c info)
    (hr' : CellChanged r r' p (changedCell cfg c info)) : RegistryOk r' := by
  have hsame : (changedCell cfg c info).assocId = c.assocId := rfl
  refine h.change (h.getCellByCellId_iff.mp hp) hc hsame ?_ hr'
  intro e he hpe q hq hqp d hd hpci
  have hpci : d.pci = info.nrPci := hpci
  have hsame : e.assocId = du.assocId := by
    rw [← hassoc]
    exact ((h.mem_cells_iff he (h.getCellByCellId_iff.mp hp) hc).mp hpe).symm
  obtain rfl := List.inj_on_of_nodup_map h.dus_nodup he hdu hsame
  by_cases hkeep : c.pci = info.nrPci
  · exact h.pci_ne he hq hpe hqp hd hc (hpci.trans hkeep.symm)
  · have hsome := (h.getCellByPciForDu_isSome_iff he).mpr ⟨q, hq, d, hd, hpci⟩
    obtain ⟨q', hq'⟩ := Option.isSome_iff_exists.mp hsome
    have hfound := List.find?_some hq'
    rw [hch.pci hkeep q' hq', hc] at hfound
    exact hkeep (of_decide_eq_true hfound)

end RegistryOk

/-! ### The update -/

def UpdatesUnknownCell (r : Registry) (update : DuConfigurationUpdate) (a : AssocId) : Prop :=
  ∃ du modify, CellSearched cfg r update a du modify ∧
    r.getCellByCellId modify.oldNrCellid = none

/-- The update names a cell of the DU, which may be changed. -/
structure CellUpdate (r : Registry) (update : DuConfigurationUpdate) (a : AssocId)
    (modify : CellToModify) (p : CellPtr) (c : Cell) (du : Du) : Prop where
  searched : CellSearched cfg r update a du modify
  found : r.getCellByCellId modify.oldNrCellid = some p
  heap : r.heap p = some c
  assoc : c.assocId = du.assocId
  changeable : Changeable r du p c modify.info

theorem CellSearched.mem_dus (h : RegistryOk r) (hs : CellSearched cfg r update a du modify) :
    du ∈ r.dus := (h.getDuByAssocId_iff.mp hs.connected).1

/-- Such an update is carried out. -/
theorem CellUpdate.process_eq (h : RegistryOk r) (hu : CellUpdate cfg r update a modify p c du) :
    ∃ r', processDuConfigurationUpdate cfg r update a = .done (r', true) ∧
      CellChanged r r' p (changedCell cfg c modify.info) ∧ RegistryOk r' := by
  have hdu := hu.searched.mem_dus cfg h
  obtain ⟨r', hr', hch⟩ :=
    h.updateCellInfo_of_changeable cfg hdu hu.found hu.heap hu.assoc hu.changeable
  refine ⟨r', ?_, hch, h.changed cfg hdu hu.found hu.heap hu.assoc hu.changeable hch⟩
  rw [processDuConfigurationUpdate_of_searched cfg hu.searched, hu.found, Registry.deref, hu.heap]
  dsimp only
  rw [Outcome.done_bind, if_neg (not_not.mpr hu.assoc), hr', Outcome.done_bind]
  rfl

/-- An update faults, is ignored or is carried out. -/
theorem processDuConfigurationUpdate_cases (h : RegistryOk r) :
    UpdatesUnknownCell cfg r update a ∧
        processDuConfigurationUpdate cfg r update a = .fault .nullPointer ∨
      processDuConfigurationUpdate cfg r update a = .fault .assertion ∨
      (∃ ack, processDuConfigurationUpdate cfg r update a = .done (r, ack)) ∨
      ∃ modify p c du, CellUpdate cfg r update a modify p c du := by
  by_cases hs : ∃ du modify, CellSearched cfg r update a du modify
  swap
  · rcases processDuConfigurationUpdate_of_not_searched cfg hs with hdone | hfault
    · exact .inr (.inr (.inl hdone))
    · exact .inr (.inl hfault)
  obtain ⟨du, modify, hs⟩ := hs
  have hdu := hs.mem_dus cfg h
  have hprocess := processDuConfigurationUpdate_of_searched cfg hs
  cases hfound : r.getCellByCellId modify.oldNrCellid with
  | none =>
    refine .inl ⟨⟨du, modify, hs, hfound⟩, ?_⟩
    rw [hprocess, hfound]
    rfl
  | some p =>
    obtain ⟨c, hc, -, hderef⟩ := h.deref_of_getCellByCellId hfound
    rw [hfound, hderef, Outcome.done_bind] at hprocess
    by_cases hassoc : c.assocId = du.assocId
    swap
    · rw [if_pos hassoc] at hprocess
      exact .inr (.inr (.inl ⟨false, hprocess⟩))
    by_cases hch : Changeable r du p c modify.info
    · exact .inr (.inr (.inr ⟨modify, p, c, du, hs, hfound, hc, hassoc, hch⟩))
    · rw [if_neg (not_not.mpr hassoc),
        h.updateCellInfo_of_not_changeable cfg hdu hfound hc hassoc hch, Outcome.done_bind]
          at hprocess
      exact .inr (.inr (.inl ⟨false, hprocess⟩))

/-- A null cell is read exactly when an update names an unknown cell. -/
theorem processDuConfigurationUpdate_eq_nullPointer_iff (h : RegistryOk r) :
    processDuConfigurationUpdate cfg r update a = .fault .nullPointer ↔
      UpdatesUnknownCell cfg r update a := by
  constructor
  · intro hfault
    rcases (processDuConfigurationUpdate_cases cfg h : UpdatesUnknownCell cfg r update a ∧ _ ∨ _)
        with
      ⟨hunknown, -⟩ | hassert | ⟨ack, hdone⟩ | ⟨modify, p, c, du, hu⟩
    · exact hunknown
    · rw [hassert] at hfault
      cases hfault
    · rw [hdone] at hfault
      cases hfault
    · obtain ⟨r', hdone, -⟩ := hu.process_eq cfg h
      rw [hdone] at hfault
      cases hfault
  · rintro ⟨du, modify, hs, hnone⟩
    rw [processDuConfigurationUpdate_of_searched cfg hs, hnone]
    rfl

/-- What has happened after an update. -/
theorem of_processDuConfigurationUpdate {ack : Bool} (h : RegistryOk r)
    (hdone : processDuConfigurationUpdate cfg r update a = .done (r', ack)) :
    r' = r ∨ ∃ modify p c du, CellUpdate cfg r update a modify p c du ∧
      CellChanged r r' p (changedCell cfg c modify.info) ∧ RegistryOk r' := by
  rcases (processDuConfigurationUpdate_cases cfg h : UpdatesUnknownCell cfg r update a ∧ _ ∨ _) with
    ⟨-, hnull⟩ | hassert | ⟨ack', hsame⟩ | ⟨modify, p, c, du, hu⟩
  · rw [hnull] at hdone
    cases hdone
  · rw [hassert] at hdone
    cases hdone
  · rw [hsame] at hdone
    cases hdone
    exact .inl rfl
  · obtain ⟨r'', hrun, hch, hok⟩ := hu.process_eq cfg h
    rw [hrun] at hdone
    cases hdone
    exact .inr ⟨modify, p, c, du, hu, hch, hok⟩

end LlmHric.Rrc
