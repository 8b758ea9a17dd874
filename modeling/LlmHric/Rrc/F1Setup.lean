import LlmHric.Rrc.RegistryInvariant
import Mathlib.Data.List.Perm.Subperm

/-! A setup request whose DU identifier is taken is refused before anything is stored. Any other
request has its DU stored first and its cells one after the other, each after its checks; nothing is
taken back when a later check fails. So a request is all or nothing exactly when it is refused at
once or every check of every cell succeeds. -/

namespace LlmHric.Rrc

open Checked

variable (cfg : RrcConfig) {r r' : Registry} {du : Du} {c : Cell} {a : AssocId}
  {info : ServedCellInfo} {sysInfo : Option SystemInfo}

/-! ### System information of the CU -/

theorem length_sibs_le : cfg.sibs.length ≤ 3 := by
  have hsub : cfg.sibs.Subperm [.sib2, .sib3, .sib4] := by
    apply List.Nodup.subperm cfg.sibs_nodup
    intro sib _
    cases sib <;> simp
  exact List.Subperm.length_le hsub

/-- The cell has a measurement timing configuration where one is read. -/
def MtcPresent (mtc : Option Mtc) : Prop :=
  (.sib2 ∈ cfg.sibs ∨ cfg.neighbourCellConfiguration ≠ none) → mtc.isSome

theorem encodeSib_eq_done (hmtc : MtcPresent cfg c.mtc) {sib : SibType} (hsib : sib ∈ cfg.sibs) :
    ∃ enc, encodeSib cfg c sib = .done enc := by
  unfold MtcPresent at hmtc
  cases hm : c.mtc with
  | some mtc =>
    cases sib with
    | sib2 => exact ⟨some (cfg.sib2 mtc), by simp only [encodeSib, hm]⟩
    | sib3 | sib4 =>
      simp only [encodeSib]
      cases cfg.neighbourCellConfiguration.bind (getCellNeighbourList · c.cellId) with
      | none => exact ⟨none, rfl⟩
      | some neighbours => exact ⟨_, by simp only [getSsbArfcn, hm]; rfl⟩
  | none =>
    rw [hm] at hmtc
    have hnone : sib ≠ .sib2 ∧ cfg.neighbourCellConfiguration = none := by
      constructor
      · rintro rfl
        cases hmtc (.inl hsib)
      · by_contra hne
        cases hmtc (.inr hne)
    cases sib with
    | sib2 => exact absurd rfl hnone.1
    | sib3 | sib4 => exact ⟨none, by simp only [encodeSib, hnone.2, Option.bind_none]⟩

theorem siMessages_eq_done (hmtc : MtcPresent cfg c.mtc) {msgs : List (SibType × Bytes)}
    {sibs : List SibType} (hsibs : ∀ sib ∈ sibs, sib ∈ cfg.sibs)
    (hlen : msgs.length + sibs.length ≤ f1apMaxNoSibTypes) :
    ∃ msgs', siMessages cfg c msgs sibs = .done msgs' := by
  induction sibs generalizing msgs with
  | nil => exact ⟨msgs, rfl⟩
  | cons sib sibs ih =>
    rw [List.forall_mem_cons] at hsibs
    rw [List.length_cons] at hlen
    obtain ⟨enc, henc⟩ := encodeSib_eq_done cfg hmtc hsibs.1
    rw [siMessages, henc, Outcome.done_bind]
    match enc with
    | none | some [] => exact ih hsibs.2 (by omega)
    | some (b :: bytes) =>
      have hlt : msgs.length < f1apMaxNoSibTypes := by omega
      simp only [Outcome.assertFatal_of hlt, Outcome.done_bind]
      exact ih hsibs.2 (by rw [List.length_append, List.length_singleton]; omega)

/-- Without a measurement timing configuration SIB2 is not built. -/
theorem siMessages_ne_done (hmtc : c.mtc = none) {msgs msgs' : List (SibType × Bytes)}
    {sibs : List SibType} (hsib : .sib2 ∈ sibs) : siMessages cfg c msgs sibs ≠ .done msgs' := by
  induction sibs generalizing msgs with
  | nil => cases hsib
  | cons sib sibs ih =>
    intro hdone
    rw [siMessages] at hdone
    obtain ⟨enc, henc, hdone⟩ := Outcome.bind_eq_done_iff.mp hdone
    rcases List.mem_cons.mp hsib with rfl | hsib
    · simp only [encodeSib, hmtc] at henc
      cases henc
    · match enc, hdone with
      | none, hdone | some [], hdone => exact ih hsib hdone
      | some (b :: bytes), hdone =>
        obtain ⟨-, -, hdone⟩ := Outcome.bind_eq_done_iff.mp hdone
        exact ih hsib hdone

/-- The PLMN is that of the CU, configured neighbours agree, the system information decodes, and
there is a measurement timing configuration where one is read. -/
structure CellAccepted (cell : ServedCellInfo × Option SystemInfo) : Prop where
  plmn : plmnMatches cfg cell.1 = true
  mtc : MtcPresent cfg (cfg.extractMtc cell.1.measurementTimingConfig)
  neighbours : ∀ configs ∈ cfg.neighbourCellConfiguration,
    ∀ mtc ∈ cfg.extractMtc cell.1.measurementTimingConfig, ∀ config ∈ configs,
      ∀ nc ∈ config.neighbourCells, neighbourAgrees cell.1 mtc.carrierFreq nc = true
  sysInfo : sysInfoAccepted cfg cell.2 = true

theorem mtc_newCell : (cpF1ServedCellInfoToCell cfg a none info).mtc =
    cfg.extractMtc info.measurementTimingConfig := by
  unfold cpF1ServedCellInfoToCell
  split_ifs with hlen
  · rfl
  · have hnil : info.measurementTimingConfig = [] :=
      List.length_eq_zero_iff.mp (Nat.eq_zero_of_not_pos hlen)
    rw [hnil, cfg.extractMtc_nil]

theorem neighboursValid_eq_true_iff : neighboursValid cfg info = .done true ↔
    (cfg.neighbourCellConfiguration ≠ none →
        (cfg.extractMtc info.measurementTimingConfig).isSome) ∧
      ∀ configs ∈ cfg.neighbourCellConfiguration,
        ∀ mtc ∈ cfg.extractMtc info.measurementTimingConfig, ∀ config ∈ configs,
          ∀ nc ∈ config.neighbourCells, neighbourAgrees info mtc.carrierFreq nc = true := by
  unfold neighboursValid validDuInNeighbourConfigs
  cases cfg.neighbourCellConfiguration with
  | none => simp
  | some configs =>
    cases cfg.extractMtc info.measurementTimingConfig with
    | none => simp
    | some mtc => simp

/-! ### One cell -/

/-- The cells of an array that are in memory. -/
def Registry.cellsOf (r : Registry) (cells : List CellPtr) : List Cell := cells.filterMap r.heap

/-- The new cell of a DU goes to memory, to the tree and to the array. -/
theorem addCell_eq (h : RegistryOk r) (hdu : du ∈ r.dus)
    (hid : c.cellId ∉ r.cells.map CellNode.key) :
    ∃ r₁, (r.alloc c).addCell r.next c.cellId = some r₁ ∧
      r₁.getDuByAssocId du.assocId = some du ∧
      (r₁.addCellToDu du.cells r.next c =
        if c.pci ∈ (r.cellsOf du.cells).map Cell.pci then none
        else some (du.cells ++ [r.next])) ∧
      r₁.setDuCells du.assocId (du.cells ++ [r.next]) = r.addServedCell du c := by
  have hnone : (r.alloc c).getCellByCellId c.cellId = none :=
    RegistryOk.getCellByCellId_eq_none_iff.mpr hid
  refine ⟨{ r.alloc c with cells := r.cells ++ [⟨c.cellId, r.next⟩], numCells := r.numCells + 1 },
    ?_, h.getDuByAssocId_iff.mpr ⟨hdu, rfl⟩, ?_, rfl⟩
  · rw [Registry.addCell, Registry.insertNode, hnone]
    rfl
  · have hlive : ∀ q ∈ du.cells, ∃ d, r.heap q = some d ∧ d.cellId ≠ c.cellId ∧
        Function.update r.heap r.next (some c) q = some d := by
      intro q hq
      obtain ⟨d, hd, -, hin⟩ := h.du_cell du hdu q hq
      refine ⟨d, hd, ?_, by rw [Function.update_of_ne (h.ne_next hd), hd]⟩
      intro heq
      exact hid (heq ▸ List.mem_map_of_mem hin)
    have hfor : ¬ (Registry.getCellForDu { r.alloc c with
        cells := r.cells ++ [⟨c.cellId, r.next⟩], numCells := r.numCells + 1 } du.cells
          c.cellId).isSome := by
      unfold Registry.getCellForDu Registry.findCell
      rw [List.find?_isSome]
      rintro ⟨q, hq, hmatch⟩
      obtain ⟨d, hd, hne, hnew⟩ := hlive q hq
      simp only [Registry.alloc, hnew, Option.any_some, decide_eq_true_eq] at hmatch
      exact hne hmatch
    have hpci : (Registry.getCellByPciForDu { r.alloc c with
        cells := r.cells ++ [⟨c.cellId, r.next⟩], numCells := r.numCells + 1 } du.cells
          c.pci).isSome = true ↔ c.pci ∈ (r.cellsOf du.cells).map Cell.pci := by
      unfold Registry.getCellByPciForDu Registry.findCell Registry.cellsOf
      rw [List.find?_isSome, List.mem_map]
      constructor
      · rintro ⟨q, hq, hmatch⟩
        obtain ⟨d, hd, -, hnew⟩ := hlive q hq
        simp only [Registry.alloc, hnew, Option.any_some, decide_eq_true_eq] at hmatch
        exact ⟨d, List.mem_filterMap.mpr ⟨q, hq, hd⟩, hmatch⟩
      · rintro ⟨d, hd, hpci⟩
        obtain ⟨q, hq, hd⟩ := List.mem_filterMap.mp hd
        obtain ⟨e, he, -, hnew⟩ := hlive q hq
        obtain rfl := Option.some.inj (hd.symm.trans he)
        refine ⟨q, hq, ?_⟩
        simp only [Registry.alloc, hnew, Option.any_some, decide_eq_true_eq]
        exact hpci
    rw [Registry.addCellToDu, if_neg hfor]
    simp only [hpci]

/-- What a cell of a request has to meet, one step of the loop. -/
theorem setupCells_cons (h : RegistryOk r) (hdu : du ∈ r.dus) (resp : List CellToActivate)
    (rest : List (ServedCellInfo × Option SystemInfo)) (hacc : CellAccepted cfg (info, sysInfo))
    (hid : info.nrCellid ∉ r.cells.map CellNode.key)
    (hpci : info.nrPci ∉ (r.cellsOf du.cells).map Cell.pci) :
    ∃ cell, setupCells cfg du.assocId r resp ((info, sysInfo) :: rest) =
      setupCells cfg du.assocId
        (r.addServedCell du (cpF1ServedCellInfoToCell cfg du.assocId none info))
        (resp ++ [cell]) rest := by
  obtain ⟨c, hc⟩ : ∃ c, c = cpF1ServedCellInfoToCell cfg du.assocId none info := ⟨_, rfl⟩
  have hcid : c.cellId = info.nrCellid := by rw [hc]; rfl
  have hcpci : c.pci = info.nrPci := by rw [hc]; rfl
  have hcmtc : c.mtc = cfg.extractMtc info.measurementTimingConfig := by rw [hc, mtc_newCell]
  obtain ⟨r₁, hadd, hfind, hto, hset⟩ := addCell_eq h hdu (c := c) (hcid ▸ hid)
  rw [if_neg (hcpci ▸ hpci)] at hto
  have hmtc := hacc.mtc
  obtain ⟨msgs, hmsgs⟩ : ∃ msgs, siMessages cfg c [] cfg.sibs = .done msgs := by
    apply siMessages_eq_done cfg (hcmtc ▸ hmtc) (fun _ hsib => hsib)
    have hlen := length_sibs_le cfg
    rw [List.length_nil, f1apMaxNoSibTypes]
    omega
  have hvalid : neighboursValid cfg info = .done true := by
    rw [neighboursValid_eq_true_iff]
    exact ⟨fun hne => hmtc (.inr hne), hacc.neighbours⟩
  refine ⟨⟨info.plmn, info.nrCellid, info.nrPci, msgs⟩, ?_⟩
  rw [setupCells, hacc.plmn, hvalid, Outcome.done_bind, hacc.sysInfo, ← hc]
  simp only [Bool.not_true, Bool.false_eq_true, if_false]
  rw [hadd]
  dsimp only
  rw [hfind, Option.map_some, Option.getD_some, hto]
  dsimp only
  rw [hmsgs, Outcome.done_bind, hset]

/-- Nothing but that leads on to the next cell. -/
theorem of_setupCells_cons (h : RegistryOk r) (hdu : du ∈ r.dus) {resp resp' : List CellToActivate}
    {rest : List (ServedCellInfo × Option SystemInfo)}
    (hdone : setupCells cfg du.assocId r resp ((info, sysInfo) :: rest) =
      .done (r', .setupResponse resp')) :
    CellAccepted cfg (info, sysInfo) ∧ info.nrCellid ∉ r.cells.map CellNode.key ∧
      info.nrPci ∉ (r.cellsOf du.cells).map Cell.pci := by
  obtain ⟨c, hc⟩ : ∃ c, c = cpF1ServedCellInfoToCell cfg du.assocId none info := ⟨_, rfl⟩
  have hcid : c.cellId = info.nrCellid := by rw [hc]; rfl
  have hcpci : c.pci = info.nrPci := by rw [hc]; rfl
  have hcmtc : c.mtc = cfg.extractMtc info.measurementTimingConfig := by rw [hc, mtc_newCell]
  rw [setupCells, ← hc] at hdone
  cases hplmn : plmnMatches cfg info with
  | false => rw [hplmn] at hdone; cases hdone
  | true =>
  rw [hplmn, Bool.not_true, if_neg Bool.false_ne_true] at hdone
  obtain ⟨valid, hvalid, hdone⟩ := Outcome.bind_eq_done_iff.mp hdone
  cases valid with
  | false => cases hdone
  | true =>
  rw [Bool.not_true, if_neg Bool.false_ne_true] at hdone
  cases hsys : sysInfoAccepted cfg sysInfo with
  | false => rw [hsys] at hdone; cases hdone
  | true =>
  rw [hsys, Bool.not_true, if_neg Bool.false_ne_true] at hdone
  dsimp only at hdone
  by_cases hid : c.cellId ∈ r.cells.map CellNode.key
  · have hsome : ((r.alloc c).getCellByCellId c.cellId).isSome := by
      rw [Option.isSome_iff_ne_none, ne_eq, RegistryOk.getCellByCellId_eq_none_iff, not_not]
      exact hid
    rw [Registry.addCell, Registry.insertNode, if_pos hsome] at hdone
    cases hdone
  obtain ⟨r₁, hadd, hfind, hto, hset⟩ := addCell_eq h hdu hid
  rw [hadd] at hdone
  dsimp only at hdone
  rw [hfind, Option.map_some, Option.getD_some, hto] at hdone
  by_cases hpci : c.pci ∈ (r.cellsOf du.cells).map Cell.pci
  · rw [if_pos hpci] at hdone
    cases hdone
  rw [if_neg hpci] at hdone
  obtain ⟨msgs, hmsgs, -⟩ := Outcome.bind_eq_done_iff.mp hdone
  obtain ⟨hpresent, hagree⟩ := (neighboursValid_eq_true_iff cfg).mp hvalid
  refine ⟨⟨hplmn, ?_, hagree, hsys⟩, hcid ▸ hid, hcpci ▸ hpci⟩
  rintro (hsib | hne)
  · by_contra hnone
    rw [Option.not_isSome_iff_eq_none] at hnone
    exact siMessages_ne_done cfg (hcmtc.trans hnone) hsib hmsgs
  · exact hpresent hne

/-! ### The loop over the cells -/

/-- Cells do not clash with one another or with identifiers and PCIs in use. -/
structure NoClash (ids pcis : List ℕ) (cells : List ServedCellInfo) : Prop where
  ids_nodup : (cells.map ServedCellInfo.nrCellid).Nodup
  ids_new : ∀ info ∈ cells, info.nrCellid ∉ ids
  pcis_nodup : (cells.map ServedCellInfo.nrPci).Nodup
  pcis_new : ∀ info ∈ cells, info.nrPci ∉ pcis

theorem noClash_nil (ids pcis : List ℕ) : NoClash ids pcis [] :=
  ⟨List.nodup_nil, by simp, List.nodup_nil, by simp⟩

theorem noClash_cons_iff {ids pcis : List ℕ} {cells : List ServedCellInfo} :
    NoClash ids pcis (info :: cells) ↔ info.nrCellid ∉ ids ∧ info.nrPci ∉ pcis ∧
      NoClash (ids ++ [info.nrCellid]) (pcis ++ [info.nrPci]) cells := by
  have hne : ∀ f : ServedCellInfo → ℕ, (∀ i ∈ cells, f i ≠ f info) ↔ f info ∉ cells.map f := by
    intro f
    simp only [List.mem_map, not_exists, not_and]
  constructor
  · rintro ⟨h1, h2, h3, h4⟩
    rw [List.map_cons, List.nodup_cons] at h1 h3
    rw [List.forall_mem_cons] at h2 h4
    refine ⟨h2.1, h4.1, h1.2, ?_, h3.2, ?_⟩
    · intro i hi
      rw [List.mem_append, List.mem_singleton, not_or]
      exact ⟨h2.2 i hi, (hne _).mpr h1.1 i hi⟩
    · intro i hi
      rw [List.mem_append, List.mem_singleton, not_or]
      exact ⟨h4.2 i hi, (hne _).mpr h3.1 i hi⟩
  · rintro ⟨hid, hpci, h1, h2, h3, h4⟩
    simp only [List.mem_append, List.mem_singleton, not_or] at h2 h4
    refine ⟨?_, ?_, ?_, ?_⟩
    · rw [List.map_cons, List.nodup_cons]
      exact ⟨(hne _).mp fun i hi => (h2 i hi).2, h1⟩
    · exact List.forall_mem_cons.mpr ⟨hid, fun i hi => (h2 i hi).1⟩
    · rw [List.map_cons, List.nodup_cons]
      exact ⟨(hne _).mp fun i hi => (h4 i hi).2, h3⟩
    · exact List.forall_mem_cons.mpr ⟨hpci, fun i hi => (h4 i hi).1⟩

/-- What the cells of a request add to a registry; `nodes` are their nodes of the tree. -/
structure CellsAdded (r r' : Registry) (du : Du) (infos : List ServedCellInfo)
    (nodes : List CellNode) : Prop where
  ok : RegistryOk r'
  dus : r'.dus = r.dus.map fun e =>
    if e.assocId = du.assocId then { e with cells := du.cells ++ nodes.map CellNode.cell } else e
  numDus : r'.numDus = r.numDus
  cells : r'.cells = r.cells ++ nodes
  numCells : r'.numCells = r.numCells + infos.length
  requested : List.Forall₂ (fun info node => node.key = info.nrCellid ∧
    r'.heap node.cell = some (cpF1ServedCellInfoToCell cfg du.assocId none info)) infos nodes
  kept : ∀ p c, r.heap p = some c → r'.heap p = some c

theorem cellsAdded_nil (h : RegistryOk r) (hdu : du ∈ r.dus) : CellsAdded cfg r r du [] [] := by
  refine ⟨h, ?_, rfl, (List.append_nil _).symm, rfl, .nil, fun _ _ hp => hp⟩
  have hid : ∀ e ∈ r.dus, (if e.assocId = du.assocId then
      { e with cells := du.cells ++ ([] : List CellNode).map CellNode.cell } else e) = id e := by
    intro e he
    split_ifs with hsame
    · rw [List.inj_on_of_nodup_map h.dus_nodup he hdu hsame, List.map_nil, List.append_nil]
      rfl
    · rfl
  rw [List.map_congr_left hid, List.map_id]

/-- The DU after it has got a cell. -/
theorem mem_addServedCell (hdu : du ∈ r.dus) :
    { du with cells := du.cells ++ [r.next] } ∈ (r.addServedCell du c).dus :=
  List.mem_map.mpr ⟨du, hdu, if_pos rfl⟩

theorem cellsOf_addServedCell (h : RegistryOk r) (hdu : du ∈ r.dus) :
    (r.addServedCell du c).cellsOf (du.cells ++ [r.next]) = r.cellsOf du.cells ++ [c] := by
  unfold Registry.cellsOf
  rw [List.filterMap_append]
  congr 1
  · apply List.filterMap_congr
    intro p hp
    obtain ⟨d, hd, -⟩ := h.du_cell du hdu p hp
    exact Function.update_of_ne (h.ne_next hd) ..
  · simp [Registry.addServedCell]

theorem CellsAdded.cons {infos : List ServedCellInfo} {nodes : List CellNode}
    (h : RegistryOk r) (hc : c = cpF1ServedCellInfoToCell cfg du.assocId none info)
    (hadded : CellsAdded cfg (r.addServedCell du c) r'
      { du with cells := du.cells ++ [r.next] } infos nodes) :
    CellsAdded cfg r r' du (info :: infos) (⟨info.nrCellid, r.next⟩ :: nodes) := by
  have hkey : c.cellId = info.nrCellid := by rw [hc]; rfl
  have hself : Function.update r.heap r.next (some c) r.next = some c := Function.update_self ..
  refine ⟨hadded.ok, ?_, hadded.numDus, ?_, ?_, ?_, ?_⟩
  · rw [hadded.dus, Registry.addServedCell, List.map_map]
    apply List.map_congr_left
    intro e _
    by_cases hsame : e.assocId = du.assocId <;> simp [hsame]
  · rw [hadded.cells, Registry.addServedCell, List.append_assoc, hkey]
    rfl
  · rw [hadded.numCells, List.length_cons]
    simp only [Registry.addServedCell]
    omega
  · exact .cons ⟨rfl, hc ▸ hadded.kept _ _ hself⟩ hadded.requested
  · intro p d hp
    exact hadded.kept p d ((Function.update_of_ne (h.ne_next hp) ..).trans hp)

/-- A cell of a request that clashes with none is added, and its identifier and PCI are in use from
then on. -/
theorem addServedCell_request (h : RegistryOk r) (hdu : du ∈ r.dus)
    (hid : info.nrCellid ∉ r.cells.map CellNode.key)
    (hpci : info.nrPci ∉ (r.cellsOf du.cells).map Cell.pci) :
    RegistryOk (r.addServedCell du (cpF1ServedCellInfoToCell cfg du.assocId none info)) ∧
      (r.addServedCell du (cpF1ServedCellInfoToCell cfg du.assocId none info)).cells.map
          CellNode.key = r.cells.map CellNode.key ++ [info.nrCellid] ∧
      ((r.addServedCell du (cpF1ServedCellInfoToCell cfg du.assocId none info)).cellsOf
          (du.cells ++ [r.next])).map Cell.pci =
        (r.cellsOf du.cells).map Cell.pci ++ [info.nrPci] := by
  refine ⟨?_, ?_, ?_⟩
  · apply h.addServedCell hdu rfl hid
    intro p hp d hd heq
    exact hpci (List.mem_map.mpr ⟨d, List.mem_filterMap.mpr ⟨p, hp, hd⟩, heq⟩)
  · rw [Registry.addServedCell, List.map_append]
    rfl
  · rw [cellsOf_addServedCell h hdu, List.map_append]
    rfl

/-- The loop adds the cells of a request if all of them are accepted and none clashes. -/
theorem setupCells_of_accepted {cells : List (ServedCellInfo × Option SystemInfo)}
    (resp : List CellToActivate) (h : RegistryOk r) (hdu : du ∈ r.dus)
    (hacc : ∀ cell ∈ cells, CellAccepted cfg cell)
    (hclash : NoClash (r.cells.map CellNode.key) ((r.cellsOf du.cells).map Cell.pci)
      (cells.map Prod.fst)) :
    ∃ r' resp' nodes, setupCells cfg du.assocId r resp cells = .done (r', .setupResponse resp') ∧
      CellsAdded cfg r r' du (cells.map Prod.fst) nodes := by
  induction cells generalizing r du resp with
  | nil => exact ⟨r, resp, [], rfl, cellsAdded_nil cfg h hdu⟩
  | cons cell cells ih =>
    obtain ⟨info, sysInfo⟩ := cell
    rw [List.forall_mem_cons] at hacc
    rw [List.map_cons, noClash_cons_iff] at hclash
    obtain ⟨hid, hpci, hrest⟩ := hclash
    obtain ⟨new, hstep⟩ := setupCells_cons cfg h hdu resp cells hacc.1 hid hpci
    obtain ⟨hok, hkeys, hpcis⟩ := addServedCell_request cfg h hdu hid hpci
    rw [← hkeys, ← hpcis] at hrest
    obtain ⟨r', resp', nodes, hrun, hadded⟩ :=
      ih (resp ++ [new]) hok (mem_addServedCell hdu) hacc.2 hrest
    exact ⟨r', resp', _, hstep.trans hrun, hadded.cons cfg h rfl⟩

/-- Only such a request gets through the loop. -/
theorem accepted_of_setupCells {cells : List (ServedCellInfo × Option SystemInfo)}
    {resp resp' : List CellToActivate} (h : RegistryOk r) (hdu : du ∈ r.dus)
    (hdone : setupCells cfg du.assocId r resp cells = .done (r', .setupResponse resp')) :
    (∀ cell ∈ cells, CellAccepted cfg cell) ∧
      NoClash (r.cells.map CellNode.key) ((r.cellsOf du.cells).map Cell.pci)
        (cells.map Prod.fst) := by
  induction cells generalizing r du resp with
  | nil => exact ⟨by simp, noClash_nil _ _⟩
  | cons cell cells ih =>
    obtain ⟨info, sysInfo⟩ := cell
    obtain ⟨hacc, hid, hpci⟩ := of_setupCells_cons cfg h hdu hdone
    obtain ⟨new, hstep⟩ := setupCells_cons cfg h hdu resp cells hacc hid hpci
    obtain ⟨hok, hkeys, hpcis⟩ := addServedCell_request cfg h hdu hid hpci
    obtain ⟨hrest, hclash⟩ := ih hok (mem_addServedCell hdu) (hstep.symm.trans hdone)
    rw [hkeys, hpcis] at hclash
    refine ⟨List.forall_mem_cons.mpr ⟨hacc, hrest⟩, ?_⟩
    rw [List.map_cons, noClash_cons_iff]
    exact ⟨hid, hpci, hclash⟩

/-- The loop neither adds nor removes a DU. -/
theorem numDus_setupCells {cells : List (ServedCellInfo × Option SystemInfo)}
    {resp : List CellToActivate} {reply : F1Reply}
    (hdone : setupCells cfg a r resp cells = .done (r', reply)) : r'.numDus = r.numDus := by
  induction cells generalizing r resp with
  | nil =>
    obtain ⟨rfl, -⟩ := Prod.mk.inj (Outcome.done.inj hdone)
    rfl
  | cons cell cells ih =>
    obtain ⟨info, sysInfo⟩ := cell
    rw [setupCells] at hdone
    by_cases hplmn : (!plmnMatches cfg info) = true
    · rw [if_pos hplmn] at hdone
      obtain ⟨rfl, -⟩ := Prod.mk.inj (Outcome.done.inj hdone)
      rfl
    rw [if_neg hplmn] at hdone
    obtain ⟨valid, -, hdone⟩ := Outcome.bind_eq_done_iff.mp hdone
    by_cases hvalid : (!valid) = true
    · rw [if_pos hvalid] at hdone
      obtain ⟨rfl, -⟩ := Prod.mk.inj (Outcome.done.inj hdone)
      rfl
    rw [if_neg hvalid] at hdone
    by_cases hsys : (!sysInfoAccepted cfg sysInfo) = true
    · rw [if_pos hsys] at hdone
      obtain ⟨rfl, -⟩ := Prod.mk.inj (Outcome.done.inj hdone)
      rfl
    rw [if_neg hsys] at hdone
    dsimp only at hdone
    cases hadd : (r.alloc (cpF1ServedCellInfoToCell cfg a none info)).addCell r.next
        (cpF1ServedCellInfoToCell cfg a none info).cellId with
    | none =>
      rw [hadd] at hdone
      obtain ⟨rfl, -⟩ := Prod.mk.inj (Outcome.done.inj hdone)
      rfl
    | some r₁ =>
      have hsame : r₁.numDus = r.numDus := by
        obtain ⟨r₂, hins, rfl⟩ := Option.map_eq_some_iff.mp hadd
        unfold Registry.insertNode at hins
        split_ifs at hins
        obtain rfl := Option.some.inj hins
        rfl
      rw [hadd] at hdone
      dsimp only at hdone
      split at hdone
      · cases hdone
      · obtain ⟨msgs, -, hdone⟩ := Outcome.bind_eq_done_iff.mp hdone
        exact (ih hdone).trans hsame

/-! ### The request -/

/-- A registry whose DUs and cells point to each other. -/
structure ValidRegistry where
  registry : Registry
  ok : RegistryOk registry

/-- A setup request on an association. -/
structure SetupIndication where
  req : F1SetupReq
  assocId : AssocId
  ne_zero : assocId ≠ 0

/-- A request with an identifier in use is refused at once. -/
def DuIdTaken (r : Registry) (req : F1SetupReq) : Prop :=
  ∃ du ∈ r.dus, du.gnbDuId = req.gnbDuId

/-- The association is new, every cell is accepted, and no cell clashes with another. -/
structure SetupAccepted (r : Registry) (req : F1SetupReq) (a : AssocId) : Prop where
  assoc_new : a ∉ r.dus.map Du.assocId
  cells : ∀ cell ∈ req.cell, CellAccepted cfg cell
  noClash : NoClash (r.cells.map CellNode.key) [] (req.cell.map Prod.fst)

/-- The registry is as it was. -/
structure SameRegistry (r r' : Registry) : Prop where
  dus : r'.dus = r.dus
  numDus : r'.numDus = r.numDus
  cells : r'.cells = r.cells
  numCells : r'.numCells = r.numCells
  heap : ∀ node ∈ r.cells, r'.heap node.cell = r.heap node.cell

/-- One DU and all cells of the request have been added. -/
structure Registered (r r' : Registry) (req : F1SetupReq) (a : AssocId)
    (nodes : List CellNode) : Prop where
  dus : r'.dus = r.dus ++ [⟨a, req.gnbDuId, nodes.map CellNode.cell⟩]
  numDus : r'.numDus = r.numDus + 1
  cells : r'.cells = r.cells ++ nodes
  numCells : r'.numCells = r.numCells + req.cell.length
  requested : List.Forall₂ (fun info node => node.key = info.nrCellid ∧
    r'.heap node.cell = some (cpF1ServedCellInfoToCell cfg a none info))
      (req.cell.map Prod.fst) nodes
  heap : ∀ node ∈ r.cells, r'.heap node.cell = r.heap node.cell

/-- A failure leaves the registry as it was, and a response comes with the DU and all its cells. -/
def AllOrNothing (r : Registry) (req : F1SetupReq) (a : AssocId) : Prop :=
  match processF1SetupReq cfg r req a with
  | .done (r', .setupFailure _) => SameRegistry r r'
  | .done (r', .setupResponse _) => ∃ nodes, Registered cfg r r' req a nodes
  | _ => False

theorem processF1SetupReq_of_taken {req : F1SetupReq} (ha : a ≠ 0) (htaken : DuIdTaken r req) :
    processF1SetupReq cfg r req a = .done (r, .setupFailure .miscUnspecified) := by
  have hany : (r.dus.any fun du => du.gnbDuId = req.gnbDuId) = true := by
    obtain ⟨du, hdu, hid⟩ := htaken
    exact List.any_eq_true.mpr ⟨du, hdu, decide_eq_true hid⟩
  rw [processF1SetupReq, Outcome.assertFatal_of ha, Outcome.done_bind, if_pos hany]
  rfl

theorem processF1SetupReq_of_not_taken {req : F1SetupReq} (ha : a ≠ 0)
    (htaken : ¬ DuIdTaken r req) : processF1SetupReq cfg r req a =
      match r.addDu ⟨a, req.gnbDuId, []⟩ with
      | none => .fault .assertion
      | some r => setupCells cfg a r [] req.cell := by
  have hany : ¬ (r.dus.any fun du => du.gnbDuId = req.gnbDuId) = true := by
    rw [List.any_eq_true]
    rintro ⟨du, hdu, hid⟩
    exact htaken ⟨du, hdu, of_decide_eq_true hid⟩
  rw [processF1SetupReq, Outcome.assertFatal_of ha, Outcome.done_bind]
  exact if_neg hany

/-- An accepted request is carried out. -/
theorem processF1SetupReq_of_accepted {req : F1SetupReq} (h : RegistryOk r) (ha : a ≠ 0)
    (htaken : ¬ DuIdTaken r req) (hacc : SetupAccepted cfg r req a) :
    ∃ r' resp nodes, processF1SetupReq cfg r req a = .done (r', .setupResponse resp) ∧
      RegistryOk r' ∧ Registered cfg r r' req a nodes := by
  obtain ⟨r₁, hadd, hdus, hcells, hheap, hnum, hnumCells, hok⟩ := h.addDu hacc.assoc_new req.gnbDuId
  have hdu : ⟨a, req.gnbDuId, []⟩ ∈ r₁.dus := by
    rw [hdus]
    exact List.mem_append_right _ (List.mem_singleton_self _)
  obtain ⟨r', resp, nodes, hrun, hadded⟩ :=
    setupCells_of_accepted cfg [] hok hdu hacc.cells (hcells ▸ hacc.noClash)
  refine ⟨r', resp, nodes, ?_, hadded.ok, ?_⟩
  · rw [processF1SetupReq_of_not_taken cfg ha htaken, hadd]
    exact hrun
  · refine ⟨?_, by rw [hadded.numDus, hnum], by rw [hadded.cells, hcells],
      by rw [hadded.numCells, hnumCells, List.length_map], hadded.requested, ?_⟩
    · rw [hadded.dus, hdus, List.map_append, List.map_singleton, if_pos rfl, List.nil_append]
      congr 1
      have hid : ∀ e ∈ r.dus, (if e.assocId = a then
          { e with cells := nodes.map CellNode.cell } else e) = id e := by
        intro e he
        rw [if_neg]
        · rfl
        · rintro rfl
          exact hacc.assoc_new (List.mem_map_of_mem he)
      rw [List.map_congr_left hid, List.map_id]
    · intro node hnode
      obtain ⟨c, hc, -⟩ := h.node node hnode
      rw [hc]
      exact hadded.kept _ c (by rw [hheap, hc])

/-- Only an accepted request is answered by a response. -/
theorem accepted_of_processF1SetupReq {req : F1SetupReq} {resp : List CellToActivate}
    (h : RegistryOk r) (ha : a ≠ 0)
    (hdone : processF1SetupReq cfg r req a = .done (r', .setupResponse resp)) :
    ¬ DuIdTaken r req ∧ SetupAccepted cfg r req a := by
  by_cases htaken : DuIdTaken r req
  · rw [processF1SetupReq_of_taken cfg ha htaken] at hdone
    cases hdone
  refine ⟨htaken, ?_⟩
  rw [processF1SetupReq_of_not_taken cfg ha htaken] at hdone
  by_cases hassoc : a ∈ r.dus.map Du.assocId
  · have hsome : (r.getDuByAssocId a).isSome := by
      rw [Option.isSome_iff_ne_none, ne_eq, RegistryOk.getDuByAssocId_eq_none_iff, not_not]
      exact hassoc
    rw [Registry.addDu, if_pos hsome] at hdone
    cases hdone
  obtain ⟨r₁, hadd, hdus, hcells, -, -, -, hok⟩ := h.addDu hassoc req.gnbDuId
  have hdu : ⟨a, req.gnbDuId, []⟩ ∈ r₁.dus := by
    rw [hdus]
    exact List.mem_append_right _ (List.mem_singleton_self _)
  rw [hadd] at hdone
  obtain ⟨hcellsOk, hclash⟩ := accepted_of_setupCells cfg hok hdu hdone
  exact ⟨hassoc, hcellsOk, hcells ▸ hclash⟩

/-- A request is all or nothing exactly when its DU identifier is taken already or it is accepted as
a whole. -/
theorem allOrNothing_iff (v : ValidRegistry) (s : SetupIndication) :
    AllOrNothing cfg v.registry s.req s.assocId ↔
      DuIdTaken v.registry s.req ∨ SetupAccepted cfg v.registry s.req s.assocId := by
  by_cases htaken : DuIdTaken v.registry s.req
  · rw [AllOrNothing, processF1SetupReq_of_taken cfg s.ne_zero htaken]
    exact iff_of_true ⟨rfl, rfl, rfl, rfl, fun _ _ => rfl⟩ (.inl htaken)
  rw [or_iff_right htaken]
  constructor
  · intro hall
    unfold AllOrNothing at hall
    cases hrun : processF1SetupReq cfg v.registry s.req s.assocId with
    | fault f => rw [hrun] at hall; exact hall.elim
    | refused => rw [hrun] at hall; exact hall.elim
    | done result =>
      obtain ⟨r', reply⟩ := result
      cases reply with
      | setupResponse resp => exact (accepted_of_processF1SetupReq cfg v.ok s.ne_zero hrun).2
      | setupFailure cause =>
        -- the DU has been added by then
        rw [hrun] at hall
        have hnum : r'.numDus = v.registry.numDus := hall.numDus
        rw [processF1SetupReq_of_not_taken cfg s.ne_zero htaken] at hrun
        cases hadd : v.registry.addDu ⟨s.assocId, s.req.gnbDuId, []⟩ with
        | none => rw [hadd] at hrun; cases hrun
        | some r₁ =>
          rw [hadd] at hrun
          have hsame := numDus_setupCells cfg hrun
          unfold Registry.addDu at hadd
          split_ifs at hadd
          obtain rfl := Option.some.inj hadd
          dsimp only at hsame
          omega
  · intro hacc
    obtain ⟨r', resp, nodes, hrun, -, hreg⟩ :=
      processF1SetupReq_of_accepted cfg v.ok s.ne_zero htaken hacc
    unfold AllOrNothing
    rw [hrun]
    exact ⟨nodes, hreg⟩

/-- A CU for one PLMN, without system information of its own or configured neighbours. -/
def smallConfig : RrcConfig where
  plmn := [⟨208, 99, 2⟩]
  neighbourCellConfiguration := none
  sibs := []
  sibs_nodup := List.nodup_nil
  saMode := true
  mibDecodes := fun mib => mib.length = 3
  sib1Decodes := fun sib1 => 0 < sib1.length
  extractMtc := fun _ => none
  extractMtc_nil := rfl
  sib2 := fun _ => []
  sib3 := fun _ _ => none
  sib4 := fun _ _ => none

/-- A cell of another PLMN. -/
def foreignCell : ServedCellInfo :=
  ⟨⟨1, 1, 2⟩, 12345678, 0, none, .tdd ⟨78, 640000, 1, 106⟩, []⟩

theorem not_allOrNothing_foreignCell :
    ¬ AllOrNothing smallConfig Registry.empty ⟨3584, [(foreignCell, none)]⟩ 1 := by
  intro hall
  have hsame : SameRegistry Registry.empty
      { Registry.empty with dus := [⟨1, 3584, []⟩], numDus := 1 } := hall
  exact absurd hsame.numDus Nat.one_ne_zero

end LlmHric.Rrc
