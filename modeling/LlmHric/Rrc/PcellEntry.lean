import LlmHric.Rrc.ServingCells

/-! The PCell of a UE is known by its number zero, and `ue_get_pcell_entry` asserts that it is also
in front of the list. Cells are added under any number and removed by DU, so the front can be taken
by an SCell: one that is added to an empty list, or one of another DU than that of the PCell, which
is removed with its DU. -/

namespace LlmHric.Rrc

open Checked Run

variable {ue ue' : Ue} {op : UeCellOp} {c : Cell} {cells : List ServingCell} {id : ℕ} {b : Bool}

/-- What happens to the serving cells of a UE. -/
inductive UeCellOp
  | addServingCell (c : Cell) (servingCellId : ℕ)
  | removeScellsFromDu (assocId : AssocId)
  | updatePcell (c : Cell)
  deriving DecidableEq

/-- The F1 data of the UE names the DU of the cell. -/
def Ue.inSync (ue : Ue) (c : Cell) : Ue := { ue with f1DuAssocId := some c.assocId }

/-- An operation, with F1 data in sync; the flag says whether an entry is returned. -/
def UeCellOp.exec (ue : Ue) : UeCellOp → Outcome (Ue × Bool)
  | .addServingCell c servingCellId => addUeServingCell (ue.inSync c) c servingCellId
  | .removeScellsFromDu assocId => .done (removeUeScellsFromDu ue assocId, true)
  | .updatePcell c => updateUePcell (ue.inSync c) c

def UeCellStep (op : UeCellOp) (s t : Ue) : Prop := ∃ b, op.exec s = .done (t, b)

/-- A new UE has no serving cells. -/
def UeCellInit (s : Ue) : Prop := s.servingCells = []

/-- The numbers are distinct and in bounds, and the PCell is in front. -/
structure PcellLinked (cells : List ServingCell) : Prop where
  ids_nodup : (cells.map ServingCell.servingCellId).Nodup
  length_le : cells.length ≤ rrcMaxNumServingCells
  front : ∀ first ∈ cells.head?, first.servingCellId = rrcPcellIndex

/-- An operation that leaves an SCell in front: it is added to an empty list, or the PCell is
removed with its DU and a cell of another DU stays. -/
def UnlinksPcell (op : UeCellOp) (ue : Ue) : Prop :=
  match op with
  | .addServingCell _ servingCellId => servingCellId ≠ rrcPcellIndex ∧ ue.servingCells = []
  | .removeScellsFromDu assocId =>
    (∃ first ∈ ue.servingCells.head?, first.assocId = assocId) ∧
      ∃ sc ∈ ue.servingCells, sc.assocId ≠ assocId
  | .updatePcell _ => False

namespace PcellLinked

theorem nil : PcellLinked [] :=
  ⟨List.nodup_nil, Nat.zero_le _, fun _ h => by cases h⟩

/-- With the PCell in front the assertion of `ue_get_pcell_entry` holds. -/
theorem ueGetPcellEntry (h : PcellLinked ue.servingCells) :
    Rrc.ueGetPcellEntry ue = .done ue.servingCells.head? := by
  unfold Rrc.ueGetPcellEntry
  cases hcells : ue.servingCells with
  | nil => rfl
  | cons first rest =>
    have hfront := h.front first (by rw [hcells]; rfl)
    dsimp only
    rw [Outcome.assertFatal_of hfront]
    rfl

/-- A PCell is not followed by another one. -/
theorem id_ne_of_mem_tail {first sc : ServingCell} {rest : List ServingCell}
    (h : PcellLinked (first :: rest)) (hsc : sc ∈ rest) : sc.servingCellId ≠ rrcPcellIndex := by
  intro hid
  have hfirst := h.front first rfl
  refine (List.nodup_cons.mp h.ids_nodup).1 ?_
  rw [hfirst, ← hid]
  exact List.mem_map_of_mem hsc

/-- The cells that are left when the PCell is removed with its DU have other numbers than zero. -/
theorem pcell_not_mem_filter {first : ServingCell} {rest : List ServingCell}
    (h : PcellLinked (first :: rest)) :
    rrcPcellIndex ∉ ((first :: rest).filter fun sc => sc.assocId ≠ first.assocId).map
      ServingCell.servingCellId := by
  rw [List.filter_cons_of_neg (by simp)]
  intro hmem
  obtain ⟨sc, hsc, hid⟩ := List.mem_map.mp hmem
  exact h.id_ne_of_mem_tail (List.mem_of_mem_filter hsc) hid

theorem filter_ids_nodup (h : PcellLinked cells) (q : ServingCell → Bool) :
    ((cells.filter q).map ServingCell.servingCellId).Nodup :=
      KeyedList.nodup_map_filter h.ids_nodup q

theorem length_filter_le (h : PcellLinked cells) (q : ServingCell → Bool) :
    (cells.filter q).length ≤ rrcMaxNumServingCells :=
      Nat.le_trans (List.length_filter_le q cells) h.length_le

end PcellLinked

/-! ### One call -/

/-- What `rrc_add_ue_serving_cell` does: it leaves the list as it is, puts the PCell in front, or
appends an SCell. -/
theorem addUeServingCell_cases (hdone : addUeServingCell ue c id = .done (ue', b)) :
    id < rrcMaxNumServingCells ∧
      ((ue' = ue ∧ (rrcMaxNumServingCells ≤ ue.servingCells.length ∨
          id ∈ ue.servingCells.map ServingCell.servingCellId)) ∨
        (ue.servingCells.length < rrcMaxNumServingCells ∧ b = true ∧
          id ∉ ue.servingCells.map ServingCell.servingCellId ∧
          ue'.servingCells = if id = rrcPcellIndex then ⟨c.cellId, id, c.assocId⟩ :: ue.servingCells
            else ue.servingCells ++ [⟨c.cellId, id, c.assocId⟩])) := by
  unfold addUeServingCell at hdone
  obtain ⟨_, hid, hdone⟩ := Outcome.bind_eq_done_iff.mp hdone
  refine ⟨?_, ?_⟩
  · by_contra hnot
    rw [Outcome.assertFatal_of_not hnot] at hid
    cases hid
  by_cases hfull : rrcMaxNumServingCells ≤ ue.servingCells.length
  · rw [if_pos hfull] at hdone
    cases hdone
    exact .inl ⟨rfl, .inl hfull⟩
  rw [if_neg hfull] at hdone
  cases hfind : getUeServingCellById ue id with
  | some existing =>
    rw [hfind] at hdone
    cases hdone
    refine .inl ⟨rfl, .inr ?_⟩
    by_contra hnot
    rw [getUeServingCellById_eq_none_iff.mpr hnot] at hfind
    cases hfind
  | none =>
    have hnew := getUeServingCellById_eq_none_iff.mp hfind
    rw [hfind] at hdone
    dsimp only at hdone
    refine .inr ⟨Nat.lt_of_not_le hfull, ?_⟩
    by_cases hzero : id = rrcPcellIndex
    · rw [if_pos hzero] at hdone
      obtain ⟨_, -, hdone⟩ := Outcome.bind_eq_done_iff.mp hdone
      cases hdone
      exact ⟨rfl, hnew, (if_pos hzero).symm⟩
    · rw [if_neg hzero] at hdone
      cases hdone
      exact ⟨rfl, hnew, (if_neg hzero).symm⟩

theorem addUeServingCell_pcell (hsync : ue.f1DuAssocId = some c.assocId)
    (hroom : ue.servingCells.length < rrcMaxNumServingCells)
    (hnew : rrcPcellIndex ∉ ue.servingCells.map ServingCell.servingCellId) :
    addUeServingCell ue c rrcPcellIndex =
      .done ({ ue with servingCells := ⟨c.cellId, rrcPcellIndex, c.assocId⟩ :: ue.servingCells },
        true) := by
  have hfind := getUeServingCellById_eq_none_iff.mpr hnew
  have hid : rrcPcellIndex < rrcMaxNumServingCells := by decide
  unfold addUeServingCell
  rw [Outcome.assertFatal_of hid, Outcome.done_bind, if_neg (Nat.not_le.mpr hroom), hfind]
  dsimp only
  rw [if_pos rfl, Outcome.assertFatal_of hsync]
  rfl

/-- A new PCell replaces the old one and the other cells of its DU. -/
theorem PcellLinked.updateUePcell (h : PcellLinked ue.servingCells)
    (hsync : ue.f1DuAssocId = some c.assocId) :
    ∃ rest, updateUePcell ue c =
        .done ({ ue with servingCells := ⟨c.cellId, rrcPcellIndex, c.assocId⟩ :: rest }, true) ∧
      PcellLinked (⟨c.cellId, rrcPcellIndex, c.assocId⟩ :: rest) := by
  have hentry := h.ueGetPcellEntry
  unfold Rrc.updateUePcell
  rw [hentry, Outcome.done_bind]
  cases hcells : ue.servingCells with
  | nil =>
    refine ⟨[], ?_, ?_⟩
    · have hadd := addUeServingCell_pcell hsync (by rw [hcells]; decide) (by simp [hcells])
      rwa [hcells] at hadd
    · exact ⟨List.nodup_singleton _, Nat.succ_le_succ (Nat.zero_le 31), fun _ hx =>
        Option.some.inj hx ▸ rfl⟩
  | cons first rest =>
    rw [hcells] at h
    have hnot := h.pcell_not_mem_filter
    have hlen : ((first :: rest).filter fun sc => sc.assocId ≠ first.assocId).length <
        rrcMaxNumServingCells := by
      rw [List.filter_cons_of_neg (by simp)]
      exact Nat.lt_of_lt_of_le (Nat.lt_succ_of_le (List.length_filter_le _ _)) h.length_le
    refine ⟨(first :: rest).filter fun sc => sc.assocId ≠ first.assocId, ?_, ?_⟩
    · have hsync' : (removeUeScellsFromDu ue first.assocId).f1DuAssocId = some c.assocId := hsync
      have hadd := addUeServingCell_pcell hsync'
        (by rw [removeUeScellsFromDu, hcells]; exact hlen)
        (by rw [removeUeScellsFromDu, hcells]; exact hnot)
      rw [removeUeScellsFromDu, hcells] at hadd
      dsimp only [List.head?_cons]
      rw [removeUeScellsFromDu, hcells]
      exact hadd
    · exact ⟨List.nodup_cons.mpr ⟨hnot, h.filter_ids_nodup _⟩, hlen,
        fun _ hx => Option.some.inj hx ▸ rfl⟩

/-- A call that returns no entry leaves the list unchanged. -/
theorem PcellLinked.exec_unchanged (h : PcellLinked ue.servingCells)
    (hdone : op.exec ue = .done (ue', false)) : ue'.servingCells = ue.servingCells := by
  cases op with
  | addServingCell c id =>
    obtain ⟨-, ⟨rfl, -⟩ | ⟨-, hb, -⟩⟩ := addUeServingCell_cases hdone
    · rfl
    · cases hb
  | removeScellsFromDu assocId => cases hdone
  | updatePcell c =>
    have hsynced : PcellLinked (ue.inSync c).servingCells := h
    obtain ⟨rest, hrun, -⟩ := hsynced.updateUePcell (c := c) rfl
    cases hrun.symm.trans hdone

/-- Other operations keep the PCell in front. -/
theorem PcellLinked.exec (h : PcellLinked ue.servingCells) (hdone : op.exec ue = .done (ue', b))
    (hgood : ¬ UnlinksPcell op ue) : PcellLinked ue'.servingCells := by
  cases op with
  | addServingCell c id =>
    obtain ⟨-, ⟨rfl, -⟩ | ⟨hroom, -, hnew, hcells⟩⟩ := addUeServingCell_cases hdone
    · exact h
    have hnew : id ∉ ue.servingCells.map ServingCell.servingCellId := hnew
    have hroom : ue.servingCells.length < rrcMaxNumServingCells := hroom
    have hcells : ue'.servingCells = if id = rrcPcellIndex then
      ⟨c.cellId, id, c.assocId⟩ :: ue.servingCells else
      ue.servingCells ++ [⟨c.cellId, id, c.assocId⟩] := hcells
    rw [hcells]
    by_cases hid : id = rrcPcellIndex
    · rw [if_pos hid]
      exact ⟨List.nodup_cons.mpr ⟨hnew, h.ids_nodup⟩, hroom, fun _ hx => Option.some.inj hx ▸ hid⟩
    · rw [if_neg hid]
      have hsome : ue.servingCells ≠ [] := fun hnil => hgood ⟨hid, hnil⟩
      refine ⟨?_, ?_, fun first hfirst => ?_⟩
      · rw [List.map_append, List.map_singleton, List.nodup_append_comm, List.singleton_append]
        exact List.nodup_cons.mpr ⟨hnew, h.ids_nodup⟩
      · rw [List.length_append]
        exact hroom
      · rw [List.head?_append_of_ne_nil _ hsome] at hfirst
        exact h.front first hfirst
  | removeScellsFromDu assocId =>
    cases hdone
    refine ⟨h.filter_ids_nodup _, h.length_filter_le _, fun first hfirst => ?_⟩
    -- the PCell stays, or nothing does
    have hmem := List.mem_of_mem_filter (List.mem_of_mem_head? hfirst)
    have hkeep := (List.mem_filter.mp (List.mem_of_mem_head? hfirst)).2
    cases hcells : ue.servingCells with
    | nil =>
      rw [hcells] at hmem
      cases hmem
    | cons pcell rest =>
      have hpcell : pcell ∈ ue.servingCells.head? := by rw [hcells]; rfl
      have hassoc : pcell.assocId ≠ assocId := by
        intro hsame
        exact hgood ⟨⟨pcell, hpcell, hsame⟩, first, hmem, of_decide_eq_true hkeep⟩
      have hfront : first = pcell := by
        have hhead :
            (ue.servingCells.filter fun sc => sc.assocId ≠ assocId).head? = some pcell := by
          rw [hcells, List.filter_cons_of_pos (by simpa using hassoc)]
          rfl
        exact Option.some.inj (hfirst.symm.trans hhead)
      rw [hfront]
      exact h.front pcell hpcell
  | updatePcell c =>
    have hsynced : PcellLinked (ue.inSync c).servingCells := h
    obtain ⟨rest, hrun, hlinked⟩ := hsynced.updateUePcell (c := c) rfl
    cases hrun.symm.trans hdone
    exact hlinked

/-- These leave an SCell in front. -/
theorem PcellLinked.exec_unlinks (h : PcellLinked ue.servingCells)
    (hdone : op.exec ue = .done (ue', b)) (hbad : UnlinksPcell op ue) :
    ¬ PcellLinked ue'.servingCells := by
  intro h'
  cases op with
  | addServingCell c id =>
    obtain ⟨hid, hnil⟩ := hbad
    obtain ⟨-, ⟨-, hfull | hmem⟩ | ⟨-, -, -, hcells⟩⟩ := addUeServingCell_cases hdone
    · have hfull : rrcMaxNumServingCells ≤ ue.servingCells.length := hfull
      rw [hnil] at hfull
      exact absurd hfull (by decide)
    · have hmem : id ∈ ue.servingCells.map ServingCell.servingCellId := hmem
      rw [hnil] at hmem
      cases hmem
    · have hcells : ue'.servingCells = if id = rrcPcellIndex then
        ⟨c.cellId, id, c.assocId⟩ :: ue.servingCells else
        ue.servingCells ++ [⟨c.cellId, id, c.assocId⟩] := hcells
      rw [if_neg hid, hnil, List.nil_append] at hcells
      exact hid (h'.front ⟨c.cellId, id, c.assocId⟩ (by rw [hcells]; rfl))
  | removeScellsFromDu assocId =>
    obtain ⟨⟨pcell, hpcell, hsame⟩, sc, hsc, hother⟩ := hbad
    cases hdone
    obtain ⟨rest, hcells⟩ := List.head?_eq_some_iff.mp hpcell
    -- the cell that stays is not the PCell, and something is in front
    have hkeep : sc ∈ (removeUeScellsFromDu ue assocId).servingCells :=
      List.mem_filter.mpr ⟨hsc, decide_eq_true hother⟩
    obtain ⟨first, hfirst⟩ : ∃ first, (removeUeScellsFromDu ue assocId).servingCells.head? =
        some first := by
      cases hrest : (removeUeScellsFromDu ue assocId).servingCells with
      | nil =>
        rw [hrest] at hkeep
        cases hkeep
      | cons first rest => exact ⟨first, rfl⟩
    have hzero := h'.front first hfirst
    obtain ⟨hin, hne⟩ := List.mem_filter.mp (List.mem_of_mem_head? hfirst)
    rw [hcells] at h hin
    rcases List.mem_cons.mp hin with rfl | hin
    · exact absurd hsame (of_decide_eq_true hne)
    · exact h.id_ne_of_mem_tail hin hzero
  | updatePcell c => exact hbad

/-- The numbers of the serving cells are distinct, there are not too many of them, a PCell is in
front, `ue_get_pcell_entry` comes back, and a call that returns no entry leaves the list unchanged.
-/
structure ServingCellsKept (ue : Ue) : Prop where
  linked : PcellLinked ue.servingCells
  entry : ∃ entry, ueGetPcellEntry ue = .done entry
  unchanged : ∀ (op : UeCellOp) ue', op.exec ue = .done (ue', false) →
    ue'.servingCells = ue.servingCells

theorem PcellLinked.kept (h : PcellLinked ue.servingCells) : ServingCellsKept ue :=
  ⟨h, ⟨_, h.ueGetPcellEntry⟩, fun _ _ hdone => h.exec_unchanged hdone⟩

/-- All along a run the serving cells are kept in order exactly when no operation leaves an SCell in
front. -/
theorem servingCellsKept_iff (tr : List UeCellOp) :
    (∀ pre ue, pre <+: tr → Reach UeCellStep UeCellInit pre ue → ServingCellsKept ue) ↔
      ∀ pre op ue ue', pre ++ [op] <+: tr → Reach UeCellStep UeCellInit pre ue →
        UeCellStep op ue ue' → ¬ UnlinksPcell op ue := by
  refine Reach.forall_prefix_iff (I := fun ue => PcellLinked ue.servingCells) ?_
    (fun _ h => h.kept) ?_ ?_ tr
  · intro ue hinit
    rw [hinit]
    exact .nil
  · rintro op ue ue' h ⟨b, hdone⟩ hgood
    exact h.exec hdone hgood
  · rintro op ue ue' h ⟨b, hdone⟩ hbad hkept
    exact h.exec_unlinks hdone hbad hkept.linked

def cellOfDu (assocId : AssocId) (cellId : ℕ) : Cell :=
  ⟨assocId, cellId, 0, ⟨208, 99, 2⟩, 1, .tdd ⟨78, 640000, 1, 106⟩, none⟩

/-- A UE has its PCell from DU 1 and an SCell from DU 2. -/
def twoDuCells : List UeCellOp :=
  [.addServingCell (cellOfDu 1 7) 0, .addServingCell (cellOfDu 2 9) 1]

/-- The UE after that. -/
def twoDuUe : Ue := ⟨1, [⟨7, 0, 1⟩, ⟨9, 1, 2⟩], some 2⟩

theorem reach_twoDuUe : Reach UeCellStep UeCellInit twoDuCells twoDuUe := by
  have hinit : UeCellInit ⟨1, [], some 1⟩ := rfl
  have hpcell : UeCellStep (.addServingCell (cellOfDu 1 7) 0) ⟨1, [], some 1⟩
      ⟨1, [⟨7, 0, 1⟩], some 1⟩ := ⟨true, rfl⟩
  have hscell : UeCellStep (.addServingCell (cellOfDu 2 9) 1) ⟨1, [⟨7, 0, 1⟩], some 1⟩ twoDuUe :=
    ⟨true, rfl⟩
  exact (Reach.first hinit hpcell).step hscell

/-- When DU 1 is lost the SCell is in front, and the assertion of `ue_get_pcell_entry` fails. -/
theorem not_servingCellsKept_lost_du :
    ∃ ue, Reach UeCellStep UeCellInit (twoDuCells ++ [.removeScellsFromDu 1]) ue ∧
      ueGetPcellEntry ue = .fault .assertion ∧
      ¬ ∀ pre ue, pre <+: twoDuCells ++ [.removeScellsFromDu 1] →
        Reach UeCellStep UeCellInit pre ue → ServingCellsKept ue := by
  have hreach : Reach UeCellStep UeCellInit (twoDuCells ++ [.removeScellsFromDu 1])
      (removeUeScellsFromDu twoDuUe 1) := reach_twoDuUe.step ⟨true, rfl⟩
  have hfault : ueGetPcellEntry (removeUeScellsFromDu twoDuUe 1) = .fault .assertion := rfl
  refine ⟨_, hreach, hfault, fun hkept => ?_⟩
  obtain ⟨entry, hentry⟩ := (hkept _ _ (List.prefix_refl _) hreach).entry
  rw [hfault] at hentry
  cases hentry

end LlmHric.Rrc
