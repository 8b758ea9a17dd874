import LlmHric.Rrc.RegistryRuns

/-! A UE names its serving cells by identifier and association, the PCell first. A lost connection
visits all UEs; a configuration update that gives a cell a new identifier does not, so that a UE
served by the cell is left with the old one. -/

namespace LlmHric.Rrc

open Checked Run

variable (cfg : RrcConfig) {r : Registry} {s t : CuState} {op : CuOp} {c : Cell} {p : CellPtr}
  {cells : List ServingCell} {new : ServingCell}

def NamesCell (r : Registry) (sc : ServingCell) : Prop :=
  ∃ p c, r.getCellByCellId sc.nci = some p ∧ r.heap p = some c ∧ c.assocId = sc.assocId

/-- The numbers are distinct, and number zero is in front. -/
structure PcellFirst (cells : List ServingCell) : Prop where
  ids_nodup : (cells.map ServingCell.servingCellId).Nodup
  head : ∀ sc ∈ cells, sc.servingCellId = rrcPcellIndex → cells.head? = some sc

namespace PcellFirst

theorem nil : PcellFirst [] := ⟨List.nodup_nil, fun _ hsc => by cases hsc⟩

theorem cons (h : PcellFirst cells) (hid : new.servingCellId = rrcPcellIndex)
    (hnew : new.servingCellId ∉ cells.map ServingCell.servingCellId) :
    PcellFirst (new :: cells) := by
  refine ⟨List.nodup_cons.mpr ⟨hnew, h.ids_nodup⟩, fun sc hsc hzero => ?_⟩
  rcases List.mem_cons.mp hsc with rfl | hsc
  · rfl
  · refine absurd ?_ hnew
    rw [hid, ← hzero]
    exact List.mem_map_of_mem hsc

theorem concat (h : PcellFirst cells) (hid : new.servingCellId ≠ rrcPcellIndex)
    (hnew : new.servingCellId ∉ cells.map ServingCell.servingCellId) :
    PcellFirst (cells ++ [new]) := by
  refine ⟨?_, fun sc hsc hzero => ?_⟩
  · rw [List.map_append, List.map_singleton, List.nodup_append_comm, List.singleton_append]
    exact List.nodup_cons.mpr ⟨hnew, h.ids_nodup⟩
  · rcases List.mem_append.mp hsc with hsc | hsc
    · rw [List.head?_append, h.head sc hsc hzero]
      rfl
    · obtain rfl := List.mem_singleton.mp hsc
      exact absurd hzero hid

theorem filter (h : PcellFirst cells) (q : ServingCell → Bool) : PcellFirst (cells.filter q) := by
  refine ⟨KeyedList.nodup_map_filter h.ids_nodup q, fun sc hsc hzero => ?_⟩
  obtain ⟨hsc, hq⟩ := List.mem_filter.mp hsc
  obtain ⟨rest, rfl⟩ := List.head?_eq_some_iff.mp (h.head sc hsc hzero)
  rw [List.filter_cons_of_pos hq]
  rfl

end PcellFirst

/-- Every serving cell of a UE names a cell, and the PCell is in front. -/
structure ServingCellsOk (r : Registry) (cells : List ServingCell) : Prop where
  named : ∀ sc ∈ cells, NamesCell r sc
  pcellFirst : PcellFirst cells

theorem ServingCellsOk.filter (h : ServingCellsOk r cells) (q : ServingCell → Bool) :
    ServingCellsOk r (cells.filter q) :=
  ⟨fun sc hsc => h.named sc (List.mem_of_mem_filter hsc), h.pcellFirst.filter q⟩

theorem ServingCellsOk.getPcellForUe {ue : Ue} (h : ServingCellsOk r ue.servingCells)
    {sc : ServingCell} (hsc : sc ∈ ue.servingCells) (hid : sc.servingCellId = rrcPcellIndex) :
    ∃ p c, getPcellForUe r ue = .done (some p) ∧ r.heap p = some c := by
  obtain ⟨p, c, hp, hc, -⟩ := h.named sc hsc
  obtain ⟨rest, hcells⟩ := List.head?_eq_some_iff.mp (h.pcellFirst.head sc hsc hid)
  refine ⟨p, c, ?_, hc⟩
  rw [Rrc.getPcellForUe, ueGetPcellEntry, hcells]
  dsimp only
  rw [Outcome.assertFatal_of hid, Outcome.done_bind, Outcome.pure_eq, Outcome.done_bind, ← hp]
  rfl

theorem getUeServingCellById_eq_none_iff {ue : Ue} {id : ℕ} :
    getUeServingCellById ue id = none ↔ id ∉ ue.servingCells.map ServingCell.servingCellId :=
  KeyedList.find?_key_eq_none_iff

theorem ServingCellsOk.addUeServingCell {ue ue' : Ue} {id : ℕ} {b : Bool}
    (h : ServingCellsOk r ue.servingCells)
    (hnames : NamesCell r ⟨c.cellId, id, c.assocId⟩)
    (hdone : addUeServingCell ue c id = .done (ue', b)) : ServingCellsOk r ue'.servingCells := by
  unfold Rrc.addUeServingCell at hdone
  obtain ⟨-, -, hdone⟩ := Outcome.bind_eq_done_iff.mp hdone
  by_cases hfull : rrcMaxNumServingCells ≤ ue.servingCells.length
  · rw [if_pos hfull] at hdone
    cases hdone
    exact h
  rw [if_neg hfull] at hdone
  cases hfind : getUeServingCellById ue id with
  | some existing =>
    rw [hfind] at hdone
    cases hdone
    exact h
  | none =>
    have hnew := getUeServingCellById_eq_none_iff.mp hfind
    rw [hfind] at hdone
    dsimp only at hdone
    by_cases hid : id = rrcPcellIndex
    · rw [if_pos hid] at hdone
      obtain ⟨-, -, hdone⟩ := Outcome.bind_eq_done_iff.mp hdone
      cases hdone
      exact ⟨List.forall_mem_cons.mpr ⟨hnames, h.named⟩, h.pcellFirst.cons hid hnew⟩
    · rw [if_neg hid] at hdone
      cases hdone
      refine ⟨?_, h.pcellFirst.concat hid hnew⟩
      intro sc hsc
      rcases List.mem_append.mp hsc with hsc | hsc
      · exact h.named sc hsc
      · obtain rfl := List.mem_singleton.mp hsc
        exact hnames

theorem ServingCellsOk.updateUePcell {ue ue' : Ue} {b : Bool}
    (h : ServingCellsOk r ue.servingCells)
    (hnames : NamesCell r ⟨c.cellId, rrcPcellIndex, c.assocId⟩)
    (hdone : updateUePcell ue c = .done (ue', b)) : ServingCellsOk r ue'.servingCells := by
  obtain ⟨existing, -, hdone⟩ := Outcome.bind_eq_done_iff.mp hdone
  cases existing with
  | none => exact h.addUeServingCell hnames hdone
  | some pcell =>
    have hrest : ServingCellsOk r (removeUeScellsFromDu ue pcell.assocId).servingCells :=
      h.filter _
    exact hrest.addUeServingCell hnames hdone

theorem RegistryOk.namesCell_iff (h : RegistryOk r) {sc : ServingCell} :
    NamesCell r sc ↔ ∃ p c, ⟨sc.nci, p⟩ ∈ r.cells ∧ r.heap p = some c ∧ c.assocId = sc.assocId := by
  simp only [NamesCell, h.getCellByCellId_iff]

theorem RegistryOk.namesCell_of_found (h : RegistryOk r) {cellId id : ℕ}
    (hp : r.getCellByCellId cellId = some p) (hc : r.heap p = some c) :
    NamesCell r ⟨c.cellId, id, c.assocId⟩ := by
  obtain ⟨d, hd, hid, -⟩ := h.deref_of_getCellByCellId hp
  obtain rfl := Option.some.inj (hc.symm.trans hd)
  exact ⟨p, c, hid ▸ hp, hc, rfl⟩

theorem Registered.namesCell {r' : Registry} {req : F1SetupReq} {a : AssocId}
    {nodes : List CellNode} {sc : ServingCell} (h : RegistryOk r) (h' : RegistryOk r')
    (hreg : Registered cfg r r' req a nodes) (hsc : NamesCell r sc) : NamesCell r' sc := by
  obtain ⟨p, c, hin, hc, hassoc⟩ := h.namesCell_iff.mp hsc
  refine h'.namesCell_iff.mpr ⟨p, c, ?_, (hreg.heap _ hin).trans hc, hassoc⟩
  rw [hreg.cells]
  exact List.mem_append_left _ hin

theorem DuRemoved.namesCell {r' : Registry} {du : Du} {sc : ServingCell} (h : RegistryOk r)
    (h' : RegistryOk r') (hdu : du ∈ r.dus) (hremoved : DuRemoved r r' du) (hsc : NamesCell r sc)
    (hne : sc.assocId ≠ du.assocId) : NamesCell r' sc := by
  obtain ⟨p, c, hin, hc, hassoc⟩ := h.namesCell_iff.mp hsc
  have hout : p ∉ du.cells := by
    intro hp
    exact hne (hassoc.symm.trans ((h.mem_cells_iff hdu hin hc).mp hp))
  refine h'.namesCell_iff.mpr ⟨p, c, ?_, ?_, hassoc⟩
  · rw [hremoved.cells]
    exact List.mem_filter.mpr ⟨hin, decide_eq_true hout⟩
  · rw [hremoved.heap, if_neg hout, hc]

/-- A changed cell is still named by its identifier if that is the same. -/
theorem CellChanged.namesCell {r' : Registry} {info : ServedCellInfo} {oldNci : ℕ}
    {sc : ServingCell} (h : RegistryOk r) (h' : RegistryOk r')
    (hp : r.getCellByCellId oldNci = some p) (hc : r.heap p = some c)
    (hch : CellChanged r r' p (changedCell cfg c info)) (hsc : NamesCell r sc)
    (hkeep : info.nrCellid = oldNci ∨ sc.nci ≠ oldNci) : NamesCell r' sc := by
  have hinOld := h.getCellByCellId_iff.mp hp
  obtain ⟨q, d, hin, hd, hassoc⟩ := h.namesCell_iff.mp hsc
  by_cases hqp : q = p
  · subst hqp
    obtain rfl := Option.some.inj (hc.symm.trans hd)
    have hnci : sc.nci = oldNci := congrArg CellNode.key (h.node_inj hin hinOld rfl)
    have hid : info.nrCellid = sc.nci := (hkeep.resolve_right (not_not.mpr hnci)).trans hnci.symm
    refine h'.namesCell_iff.mpr ⟨q, changedCell cfg c info, ?_, ?_, hassoc⟩
    · rw [hch.mem_cells, ← hid]
      exact .inl rfl
    · rw [hch.heap, Function.update_self]
  · refine h'.namesCell_iff.mpr ⟨q, d, (hch.mem_cells _).mpr (.inr ⟨hin, hqp⟩), ?_, hassoc⟩
    rw [hch.heap, Function.update_of_ne hqp, hd]

theorem CellChanged.not_namesCell {r' : Registry} {info : ServedCellInfo} {oldNci : ℕ}
    {sc : ServingCell} (h : RegistryOk r) (h' : RegistryOk r')
    (hp : r.getCellByCellId oldNci = some p) (hch : CellChanged r r' p (changedCell cfg c info))
    (hne : info.nrCellid ≠ oldNci) (hnci : sc.nci = oldNci) : ¬ NamesCell r' sc := by
  intro hsc
  obtain ⟨q, d, hin, -, -⟩ := h'.namesCell_iff.mp hsc
  rcases (hch.mem_cells _).mp hin with hnode | ⟨hin, hqp⟩
  · have hkey : sc.nci = info.nrCellid := congrArg CellNode.key hnode
    exact hne (hkey.symm.trans hnci)
  · have hfound := h.getCellByCellId_iff.mpr hin
    rw [hnci, hp] at hfound
    exact hqp (Option.some.inj hfound).symm

/-! ### Runs -/

/-- An update gives a cell a new identifier while a UE has it as a serving cell. -/
def RekeysServingCell (s : CuState) (op : CuOp) : Prop :=
  ∃ update assocId modify p c du, op = .duConfigurationUpdate update assocId ∧
    CellUpdate cfg s.registry update assocId modify p c du ∧
    modify.info.nrCellid ≠ modify.oldNrCellid ∧
    ∃ ue ∈ s.ues, ∃ sc ∈ ue.servingCells, sc.nci = modify.oldNrCellid

/-- Every serving cell of every UE names a cell of its association, and a UE with a PCell entry has
a PCell. -/
def ServingCellsNamed (s : CuState) : Prop :=
  ∀ ue ∈ s.ues, (∀ sc ∈ ue.servingCells, NamesCell s.registry sc) ∧
    ((∃ sc ∈ ue.servingCells, sc.servingCellId = rrcPcellIndex) →
      ∃ p c, getPcellForUe s.registry ue = .done (some p) ∧ s.registry.heap p = some c)

/-- DUs and cells agree, and UEs name cells. -/
structure CuOk (s : CuState) : Prop where
  registry : RegistryOk s.registry
  ues : ∀ ue ∈ s.ues, ServingCellsOk s.registry ue.servingCells

theorem CuOk.named (h : CuOk s) : ServingCellsNamed s := by
  intro ue hue
  refine ⟨(h.ues ue hue).named, ?_⟩
  rintro ⟨sc, hsc, hid⟩
  exact (h.ues ue hue).getPcellForUe hsc hid

theorem CuOk.setUe (h : CuOk s) {ue : Ue} (hue : ServingCellsOk s.registry ue.servingCells) :
    CuOk (s.setUe ue) := by
  refine ⟨h.registry, fun u hu => ?_⟩
  obtain ⟨u', hu', rfl⟩ := List.mem_map.mp hu
  split_ifs
  · exact hue
  · exact h.ues u' hu'

theorem CuStep.cuOk (h : CuOk s) (hs : CuStep cfg op s t) (hgood : ¬ RekeysServingCell cfg s op) :
    CuOk t := by
  cases hs.effect cfg h.registry with
  | setup hok hreg =>
    exact ⟨hok, fun ue hue => ⟨fun sc hsc =>
      hreg.namesCell cfg h.registry hok ((h.ues ue hue).named sc hsc), (h.ues ue hue).pcellFirst⟩⟩
  | ignored => exact h
  | unconnected => exact h
  | @updated update a registry modify p c du hok hu hch =>
    refine ⟨hok, fun ue hue => ⟨fun sc hsc => ?_, (h.ues ue hue).pcellFirst⟩⟩
    apply hch.namesCell cfg h.registry hok hu.found hu.heap ((h.ues ue hue).named sc hsc)
    by_contra hkeep
    rw [not_or, not_not] at hkeep
    exact hgood ⟨update, a, modify, p, c, du, rfl, hu, hkeep.1, ue, hue, sc, hsc, hkeep.2⟩
  | @lost du t hok hdu hremoved hues =>
    refine ⟨hok, fun ue' hue' => ?_⟩
    obtain ⟨ue, hue, hcells⟩ := mem_invalidateDuConnections cfg hues hue'
    rw [hcells]
    refine ⟨fun sc hsc => ?_, (h.ues ue hue).pcellFirst.filter _⟩
    obtain ⟨hsc, hne⟩ := List.mem_filter.mp hsc
    exact hremoved.namesCell h.registry hok hdu ((h.ues ue hue).named sc hsc)
      (of_decide_eq_true hne)
  | created =>
    refine ⟨h.registry, fun ue hue => ?_⟩
    rcases List.mem_append.mp hue with hue | hue
    · exact h.ues ue hue
    · obtain rfl := List.mem_singleton.mp hue
      exact ⟨fun _ hsc => (by cases hsc), .nil⟩
  | f1Data hue =>
    have hcells := h.ues _ hue
    exact h.setUe hcells
  | added hue hp hc hadd =>
    exact h.setUe ((h.ues _ hue).addUeServingCell (h.registry.namesCell_of_found hp hc) hadd)
  | pcell hue hp hc hadd =>
    exact h.setUe ((h.ues _ hue).updateUePcell (h.registry.namesCell_of_found hp hc) hadd)

/-- A UE is left with an identifier that names no cell. -/
theorem CuStep.not_named (h : CuOk s) (hs : CuStep cfg op s t) (hbad : RekeysServingCell cfg s op) :
    ¬ ServingCellsNamed t := by
  obtain ⟨update, a, modify, p, c, du, rfl, hu, hne, ue, hue, sc, hsc, hnci⟩ := hbad
  obtain ⟨r', hrun, hch, hok⟩ := hu.process_eq cfg h.registry
  unfold CuStep at hs
  rw [CuState.exec, hrun, Outcome.done_bind] at hs
  cases hs
  intro hnamed
  exact hch.not_namesCell cfg h.registry hok hu.found hne hnci ((hnamed ue hue).1 sc hsc)

/-- All along a run the serving cells of all UEs name cells exactly when no update gives a new
identifier to a serving cell. -/
theorem servingCellsNamed_iff (tr : List CuOp) :
    (∀ pre s, pre <+: tr → Reach (CuStep cfg) CuInit pre s → ServingCellsNamed s) ↔
      ∀ pre op s t, pre ++ [op] <+: tr → Reach (CuStep cfg) CuInit pre s → CuStep cfg op s t →
        ¬ RekeysServingCell cfg s op := by
  refine Reach.forall_prefix_iff (I := CuOk) ?_ (fun _ h => h.named)
    (fun _ _ _ h hs hgood => hs.cuOk cfg h hgood) (fun _ _ _ h hs hbad => hs.not_named cfg h hbad)
        tr
  rintro s rfl
  exact ⟨registryOk_empty, fun ue hue => by cases hue⟩

/-- A cell gets the identifier 9 while a UE has it as its PCell under 7. -/
theorem not_servingCellsNamed_rekeyed :
    ¬ ∀ pre s, pre <+: [.f1Setup ⟨3584, [(homeCell 7 0, none)]⟩ 1, .createUeContext 1 1,
        .addUeServingCell 1 7 0, .duConfigurationUpdate ⟨[], [⟨7, homeCell 9 0⟩]⟩ 1] →
      Reach (CuStep smallConfig) CuInit pre s → ServingCellsNamed s := by
  intro hnamed
  obtain ⟨s₁, h₁⟩ : ∃ s, CuStep smallConfig (.f1Setup ⟨3584, [(homeCell 7 0, none)]⟩ 1)
      ⟨Registry.empty, []⟩ s := ⟨_, rfl⟩
  obtain ⟨s₂, h₂⟩ : ∃ s, CuStep smallConfig (.createUeContext 1 1) s₁ s := by
    cases h₁
    exact ⟨_, rfl⟩
  obtain ⟨s₃, h₃⟩ : ∃ s, CuStep smallConfig (.addUeServingCell 1 7 0) s₂ s := by
    cases h₁
    cases h₂
    exact ⟨_, rfl⟩
  obtain ⟨s₄, h₄⟩ : ∃ s,
      CuStep smallConfig (.duConfigurationUpdate ⟨[], [⟨7, homeCell 9 0⟩]⟩ 1) s₃ s := by
    cases h₁
    cases h₂
    cases h₃
    exact ⟨_, rfl⟩
  have hinit : CuInit ⟨Registry.empty, []⟩ := rfl
  have hreach := (((Reach.first hinit h₁).step h₂).step h₃).step h₄
  obtain ⟨hcells, -⟩ := hnamed _ s₄ (List.prefix_refl _) hreach ⟨1, [⟨7, 0, 1⟩], some 1⟩ (by
    cases h₁
    cases h₂
    cases h₃
    cases h₄
    exact List.mem_singleton_self _)
  obtain ⟨p, c, hp, -⟩ := hcells _ (List.mem_singleton_self _)
  cases h₁
  cases h₂
  cases h₃
  cases h₄
  cases hp

end LlmHric.Rrc
