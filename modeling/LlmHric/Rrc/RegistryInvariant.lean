import LlmHric.Library.KeyedList
import LlmHric.Rrc.DuRegistry
import Mathlib.Data.List.Nodup
import Mathlib.Data.List.Pairwise

/-! Each cell of the tree is in the array of exactly one DU and has the association of that DU, and
each pointer of an array leads to a cell that the tree holds under its identifier. The operations of
the registry keep this relation. -/

namespace LlmHric.Rrc

open Checked

/-- DUs and cells point to each other. -/
structure RegistryOk (r : Registry) : Prop where
  numDus : r.numDus = r.dus.length
  numCells : r.numCells = r.cells.length
  dus_nodup : (r.dus.map Du.assocId).Nodup
  keys_nodup : (r.cells.map CellNode.key).Nodup
  node : ∀ node ∈ r.cells, ∃ c, r.heap node.cell = some c ∧ c.cellId = node.key ∧
    ∃ du ∈ r.dus, du.assocId = c.assocId ∧ node.cell ∈ du.cells
  du_cell : ∀ du ∈ r.dus, ∀ p ∈ du.cells, ∃ c, r.heap p = some c ∧ c.assocId = du.assocId ∧
    ⟨c.cellId, p⟩ ∈ r.cells
  pcis : ∀ du ∈ r.dus, du.cells.Pairwise fun p q =>
    ∀ c d, r.heap p = some c → r.heap q = some d → c.pci ≠ d.pci
  fresh : ∀ p, r.next ≤ p → r.heap p = none

variable {r : Registry} {du : Du} {c : Cell} {p : CellPtr} {a : AssocId} {id : ℕ}

theorem registryOk_empty : RegistryOk Registry.empty := by
  refine ⟨rfl, rfl, List.nodup_nil, List.nodup_nil, ?_, ?_, ?_, fun _ _ => rfl⟩ <;>
    simp [Registry.empty]

namespace RegistryOk

/-! ### Searches -/

theorem getDuByAssocId_iff (h : RegistryOk r) :
    r.getDuByAssocId a = some du ↔ du ∈ r.dus ∧ du.assocId = a :=
  KeyedList.find?_key_eq_some_iff h.dus_nodup

theorem getDuByAssocId_eq_none_iff : r.getDuByAssocId a = none ↔ a ∉ r.dus.map Du.assocId :=
  KeyedList.find?_key_eq_none_iff

theorem getCellByCellId_iff (h : RegistryOk r) :
    r.getCellByCellId id = some p ↔ ⟨id, p⟩ ∈ r.cells := by
  unfold Registry.getCellByCellId
  rw [Option.map_eq_some_iff]
  constructor
  · rintro ⟨node, hfind, rfl⟩
    obtain ⟨hnode, rfl⟩ := (KeyedList.find?_key_eq_some_iff h.keys_nodup).mp hfind
    exact hnode
  · intro hmem
    exact ⟨⟨id, p⟩, (KeyedList.find?_key_eq_some_iff h.keys_nodup).mpr ⟨hmem, rfl⟩, rfl⟩

theorem getCellByCellId_eq_none_iff :
    r.getCellByCellId id = none ↔ id ∉ r.cells.map CellNode.key := by
  unfold Registry.getCellByCellId
  rw [Option.map_eq_none_iff, KeyedList.find?_key_eq_none_iff]

theorem deref_some_eq_done_iff : r.deref (some p) = .done c ↔ r.heap p = some c := by
  cases hp : r.heap p <;> simp [Registry.deref, hp]

/-- A cell that a search finds is in memory. -/
theorem deref_of_getCellByCellId (h : RegistryOk r) (hp : r.getCellByCellId id = some p) :
    ∃ c, r.heap p = some c ∧ c.cellId = id ∧ r.deref (some p) = .done c := by
  obtain ⟨c, hc, hid, -⟩ := h.node _ (h.getCellByCellId_iff.mp hp)
  exact ⟨c, hc, hid, by simp only [Registry.deref, hc]⟩

/-- Two nodes of one cell are one node. -/
theorem node_inj (h : RegistryOk r) {n m : CellNode} (hn : n ∈ r.cells) (hm : m ∈ r.cells)
    (hcell : n.cell = m.cell) : n = m := by
  obtain ⟨c, hc, hkey, -⟩ := h.node n hn
  obtain ⟨d, hd, hkey', -⟩ := h.node m hm
  rw [hcell, hd] at hc
  obtain rfl := Option.some.inj hc
  exact List.inj_on_of_nodup_map h.keys_nodup hn hm (hkey.symm.trans hkey')

theorem getCellByPciForDu_isSome_iff (h : RegistryOk r) (hdu : du ∈ r.dus) {pci : ℕ} :
    (r.getCellByPciForDu du.cells pci).isSome ↔
      ∃ p ∈ du.cells, ∃ c, r.heap p = some c ∧ c.pci = pci := by
  unfold Registry.getCellByPciForDu Registry.findCell
  rw [List.find?_isSome]
  constructor
  · rintro ⟨p, hp, hpci⟩
    obtain ⟨c, hc, -, -⟩ := h.du_cell du hdu p hp
    rw [hc] at hpci
    exact ⟨p, hp, c, hc, of_decide_eq_true hpci⟩
  · rintro ⟨p, hp, c, hc, hpci⟩
    exact ⟨p, hp, by simp [hc, hpci]⟩

/-- No cell has two nodes. -/
theorem nodup_map_cell (h : RegistryOk r) : (r.cells.map CellNode.cell).Nodup :=
  List.Nodup.map_on (fun _ hn _ hm hcell => h.node_inj hn hm hcell)
    (List.Nodup.of_map _ h.keys_nodup)

/-- No cell is twice in the array of its DU. -/
theorem nodup_cells (h : RegistryOk r) (hdu : du ∈ r.dus) : du.cells.Nodup := by
  refine (h.pcis du hdu).imp_of_mem ?_
  rintro p q hp - hne rfl
  obtain ⟨c, hc, -, -⟩ := h.du_cell du hdu p hp
  exact hne c c hc hc rfl

/-- Two cells of one DU differ in their PCI. -/
theorem pci_ne (h : RegistryOk r) (hdu : du ∈ r.dus) {q : CellPtr} {d : Cell} (hp : p ∈ du.cells)
    (hq : q ∈ du.cells) (hpq : p ≠ q) (hc : r.heap p = some c) (hd : r.heap q = some d) :
    c.pci ≠ d.pci := by
  have : Std.Symm fun u v : CellPtr =>
      ∀ c d, r.heap u = some c → r.heap v = some d → c.pci ≠ d.pci :=
    ⟨fun u v hne c d hc hd => (hne d c hd hc).symm⟩
  exact (h.pcis du hdu).forall hp hq hpq c d hc hd

/-- The array that holds a cell is that of the DU it belongs to. -/
theorem mem_cells_iff (h : RegistryOk r) (hdu : du ∈ r.dus) {n : CellNode} (hn : n ∈ r.cells)
    (hc : r.heap n.cell = some c) : n.cell ∈ du.cells ↔ c.assocId = du.assocId := by
  constructor
  · intro hmem
    obtain ⟨d, hd, hassoc, -⟩ := h.du_cell du hdu _ hmem
    obtain rfl := Option.some.inj (hc.symm.trans hd)
    exact hassoc
  · intro hassoc
    obtain ⟨d, hd, -, e, he, heassoc, hmem⟩ := h.node n hn
    obtain rfl := Option.some.inj (hc.symm.trans hd)
    obtain rfl := List.inj_on_of_nodup_map h.dus_nodup he hdu (heassoc.trans hassoc)
    exact hmem

/-! ### Insertions -/

theorem addDu (h : RegistryOk r) (ha : a ∉ r.dus.map Du.assocId) (duId : ℕ) :
    ∃ r', r.addDu ⟨a, duId, []⟩ = some r' ∧ r'.dus = r.dus ++ [⟨a, duId, []⟩] ∧
      r'.cells = r.cells ∧ r'.heap = r.heap ∧ r'.numDus = r.numDus + 1 ∧
      r'.numCells = r.numCells ∧ RegistryOk r' := by
  have hnone : r.getDuByAssocId a = none := getDuByAssocId_eq_none_iff.mpr ha
  refine ⟨{ r with dus := r.dus ++ [⟨a, duId, []⟩], numDus := r.numDus + 1 },
    by rw [Registry.addDu, hnone]; rfl, rfl, rfl, rfl, rfl, rfl, ?_⟩
  refine ⟨?_, h.numCells, ?_, h.keys_nodup, ?_, ?_, ?_, h.fresh⟩
  · rw [List.length_append, ← h.numDus]
    rfl
  · rw [List.map_append, List.map_singleton, List.nodup_append_comm, List.singleton_append]
    exact List.nodup_cons.mpr ⟨ha, h.dus_nodup⟩
  · intro node hnode
    obtain ⟨c, hc, hkey, du, hdu, hrest⟩ := h.node node hnode
    exact ⟨c, hc, hkey, du, List.mem_append_left _ hdu, hrest⟩
  · intro du hdu
    rcases List.mem_append.mp hdu with hdu | hdu
    · exact h.du_cell du hdu
    · obtain rfl := List.mem_singleton.mp hdu
      simp
  · intro du hdu
    rcases List.mem_append.mp hdu with hdu | hdu
    · exact h.pcis du hdu
    · obtain rfl := List.mem_singleton.mp hdu
      exact List.Pairwise.nil

end RegistryOk

/-- A new cell in memory, in the tree and in the array of its DU. -/
def Registry.addServedCell (r : Registry) (du : Du) (c : Cell) : Registry where
  dus := r.dus.map fun e => if e.assocId = du.assocId then { e with cells := du.cells ++ [r.next] }
    else e
  numDus := r.numDus
  cells := r.cells ++ [⟨c.cellId, r.next⟩]
  numCells := r.numCells + 1
  heap := Function.update r.heap r.next (some c)
  next := r.next + 1

namespace RegistryOk

/-- Pointers in use are not the next one allocated. -/
theorem ne_next (h : RegistryOk r) (hp : r.heap p = some c) : p ≠ r.next := by
  rintro rfl
  rw [h.fresh _ (Nat.le_refl _)] at hp
  cases hp

theorem addServedCell (h : RegistryOk r) (hdu : du ∈ r.dus) (ha : c.assocId = du.assocId)
    (hid : c.cellId ∉ r.cells.map CellNode.key)
    (hpci : ∀ p ∈ du.cells, ∀ d, r.heap p = some d → d.pci ≠ c.pci) :
    RegistryOk (r.addServedCell du c) := by
  have hself : Function.update r.heap r.next (some c) r.next = some c := Function.update_self ..
  have hother : ∀ p d, r.heap p = some d → Function.update r.heap r.next (some c) p = some d :=
    fun p d hp => by rw [Function.update_of_ne (h.ne_next hp), hp]
  have hback : ∀ p d, Function.update r.heap r.next (some c) p = some d →
      p ≠ r.next → r.heap p = some d :=
    fun p d hp hne => by rwa [Function.update_of_ne hne] at hp
  -- a DU afterwards is the one that has got the cell, or one from before
  have hcases : ∀ e ∈ (r.addServedCell du c).dus,
      e = { du with cells := du.cells ++ [r.next] } ∨ e ∈ r.dus ∧ e.assocId ≠ du.assocId := by
    intro e he
    obtain ⟨e', he', rfl⟩ := List.mem_map.mp he
    split_ifs with hsame
    · left
      rw [List.inj_on_of_nodup_map h.dus_nodup he' hdu hsame]
    · exact .inr ⟨he', hsame⟩
  have hmem : ∀ e ∈ r.dus, ∃ e' ∈ (r.addServedCell du c).dus, e'.assocId = e.assocId ∧
      ∀ p ∈ e.cells, p ∈ e'.cells := by
    intro e he
    refine ⟨_, List.mem_map_of_mem he, ?_⟩
    split_ifs with hsame
    · rw [List.inj_on_of_nodup_map h.dus_nodup he hdu hsame]
      exact ⟨rfl, fun p hp => List.mem_append_left _ hp⟩
    · exact ⟨rfl, fun p hp => hp⟩
  have hids : (r.addServedCell du c).dus.map Du.assocId = r.dus.map Du.assocId := by
    rw [Registry.addServedCell, List.map_map]
    apply List.map_congr_left
    intro e _
    dsimp only [Function.comp]
    split_ifs <;> rfl
  refine ⟨?_, ?_, hids ▸ h.dus_nodup, ?_, ?_, ?_, ?_, ?_⟩
  · simp [Registry.addServedCell, h.numDus]
  · simp [Registry.addServedCell, h.numCells]
  · rw [Registry.addServedCell, List.map_append, List.map_singleton, List.nodup_append_comm,
      List.singleton_append]
    exact List.nodup_cons.mpr ⟨hid, h.keys_nodup⟩
  · intro node hnode
    rcases List.mem_append.mp hnode with hnode | hnode
    · obtain ⟨d, hd, hkey, e, he, hassoc, hin⟩ := h.node node hnode
      obtain ⟨e', he', hassoc', hcells⟩ := hmem e he
      exact ⟨d, hother _ d hd, hkey, e', he', hassoc'.trans hassoc, hcells _ hin⟩
    · obtain rfl := List.mem_singleton.mp hnode
      refine ⟨c, hself, rfl, { du with cells := du.cells ++ [r.next] }, ?_, ha.symm,
        List.mem_append_right _ (List.mem_singleton_self _)⟩
      exact List.mem_map.mpr ⟨du, hdu, if_pos rfl⟩
  · intro e he p hp
    rcases hcases e he with rfl | ⟨he, -⟩
    · rcases List.mem_append.mp hp with hp | hp
      · obtain ⟨d, hd, hassoc, hin⟩ := h.du_cell du hdu p hp
        exact ⟨d, hother p d hd, hassoc, List.mem_append_left _ hin⟩
      · obtain rfl := List.mem_singleton.mp hp
        exact ⟨c, hself, ha, List.mem_append_right _ (List.mem_singleton_self _)⟩
    · obtain ⟨d, hd, hassoc, hin⟩ := h.du_cell e he p hp
      exact ⟨d, hother p d hd, hassoc, List.mem_append_left _ hin⟩
  · intro e he
    rcases hcases e he with rfl | ⟨he, -⟩
    · rw [List.pairwise_append]
      refine ⟨?_, List.pairwise_singleton .., ?_⟩
      · refine (h.pcis du hdu).imp_of_mem ?_
        intro p q hp hq hne d e hd he
        obtain ⟨d', hd', -⟩ := h.du_cell du hdu p hp
        obtain ⟨e', he', -⟩ := h.du_cell du hdu q hq
        exact hne d e (hback p d hd (h.ne_next hd')) (hback q e he (h.ne_next he'))
      · intro p hp q hq d e hd he
        obtain rfl := List.mem_singleton.mp hq
        obtain rfl := Option.some.inj (hself.symm.trans he)
        obtain ⟨d', hd', -⟩ := h.du_cell du hdu p hp
        exact hpci p hp d (hback p d hd (h.ne_next hd'))
    · refine (h.pcis e he).imp_of_mem ?_
      intro p q hp hq hne d f hd hf
      obtain ⟨d', hd', -⟩ := h.du_cell e he p hp
      obtain ⟨f', hf', -⟩ := h.du_cell e he q hq
      exact hne d f (hback p d hd (h.ne_next hd')) (hback q f hf (h.ne_next hf'))
  · intro p hp
    have hlt : r.next < p := hp
    exact (Function.update_of_ne (Nat.ne_of_gt hlt) ..).trans (h.fresh p (Nat.le_of_lt hlt))

end RegistryOk

/-! ### A changed cell -/

/-- A cell has been written and has moved to its place in the tree. -/
structure CellChanged (r r' : Registry) (p : CellPtr) (new : Cell) : Prop where
  dus : r'.dus = r.dus
  numDus : r'.numDus = r.numDus
  numCells : r'.numCells = r.numCells
  heap : r'.heap = Function.update r.heap p (some new)
  next : r'.next = r.next
  length_cells : r'.cells.length = r.cells.length
  keys_nodup : (r'.cells.map CellNode.key).Nodup
  mem_cells : ∀ n, n ∈ r'.cells ↔ n = ⟨new.cellId, p⟩ ∨ n ∈ r.cells ∧ n.cell ≠ p

namespace RegistryOk

theorem change {r' : Registry} {new : Cell} (h : RegistryOk r) (hin : ⟨id, p⟩ ∈ r.cells)
    (hc : r.heap p = some c) (hassoc : new.assocId = c.assocId)
    (hpci : ∀ du ∈ r.dus, p ∈ du.cells → ∀ q ∈ du.cells, q ≠ p →
      ∀ d, r.heap q = some d → d.pci ≠ new.pci)
    (hch : CellChanged r r' p new) : RegistryOk r' := by
  have hself : r'.heap p = some new := by rw [hch.heap, Function.update_self]
  have hother : ∀ q, q ≠ p → r'.heap q = r.heap q := by
    intro q hq
    rw [hch.heap, Function.update_of_ne hq]
  refine ⟨?_, ?_, hch.dus ▸ h.dus_nodup, hch.keys_nodup, ?_, ?_, ?_, ?_⟩
  · rw [hch.numDus, hch.dus, h.numDus]
  · rw [hch.numCells, hch.length_cells, h.numCells]
  · intro n hn
    rw [hch.dus]
    rcases (hch.mem_cells n).mp hn with rfl | ⟨hn, hne⟩
    · obtain ⟨d, hd, -, du, hdu, hduassoc, hmem⟩ := h.node _ hin
      obtain rfl := Option.some.inj (hc.symm.trans hd)
      exact ⟨new, hself, rfl, du, hdu, hduassoc.trans hassoc.symm, hmem⟩
    · rw [hother _ hne]
      exact h.node n hn
  · intro du hdu q hq
    rw [hch.dus] at hdu
    obtain ⟨d, hd, hduassoc, hmem⟩ := h.du_cell du hdu q hq
    by_cases hqp : q = p
    · subst hqp
      obtain rfl := Option.some.inj (hc.symm.trans hd)
      exact ⟨new, hself, hassoc.trans hduassoc, (hch.mem_cells _).mpr (.inl rfl)⟩
    · rw [hother q hqp]
      exact ⟨d, hd, hduassoc, (hch.mem_cells _).mpr (.inr ⟨hmem, hqp⟩)⟩
  · intro du hdu
    rw [hch.dus] at hdu
    refine (h.pcis du hdu).imp_of_mem ?_
    intro u v hu hv hne d e hd he
    by_cases hup : u = p
    · subst hup
      obtain rfl := Option.some.inj (hself.symm.trans hd)
      by_cases hvu : v = u
      · subst hvu
        exact absurd rfl (hne c c hc hc)
      · rw [hother v hvu] at he
        exact (hpci du hdu hu v hv hvu e he).symm
    · rw [hother u hup] at hd
      by_cases hvp : v = p
      · subst hvp
        obtain rfl := Option.some.inj (hself.symm.trans he)
        exact hpci du hdu hv u hu hup d hd
      · rw [hother v hvp] at he
        exact hne d e hd he
  · intro q hq
    rw [hch.next] at hq
    rw [hother q, h.fresh q hq]
    rintro rfl
    rw [h.fresh q hq] at hc
    cases hc

end RegistryOk

/-! ### Removal of a DU -/

/-- The loop that removes cells takes their nodes from the tree and frees them. -/
structure CellsRemoved (r r' : Registry) (ps : List CellPtr) : Prop where
  dus : r'.dus = r.dus
  numDus : r'.numDus = r.numDus
  next : r'.next = r.next
  numCells : r'.numCells = r.numCells - ps.length
  length_cells : r'.cells.length = r.cells.length - ps.length
  cells : r'.cells = r.cells.filter fun n => n.cell ∉ ps
  heap : ∀ p, r'.heap p = if p ∈ ps then none else r.heap p

theorem rmCell_eq (hnodes : (r.cells.map CellNode.cell).Nodup)
    (hp : p ∈ r.cells.map CellNode.cell) :
    ∃ r', r.rmCell p = .done r' ∧ CellsRemoved r r' [p] := by
  have hany : (r.cells.any fun node => node.cell = p) = true := by
    obtain ⟨n, hn, hcell⟩ := List.mem_map.mp hp
    exact List.any_eq_true.mpr ⟨n, hn, decide_eq_true hcell⟩
  refine ⟨({ r with
    cells := r.cells.eraseP fun node => node.cell = p, numCells := r.numCells - 1 } :
      Registry).free p, ?_, rfl, rfl, rfl, rfl, ?_, ?_, ?_⟩
  · rw [Registry.rmCell, Registry.removeNode, if_pos hany]
    rfl
  · obtain ⟨n, hn, hcell⟩ := List.mem_map.mp hp
    exact List.length_eraseP_of_mem hn (decide_eq_true hcell)
  · simp only [List.mem_singleton]
    exact KeyedList.eraseP_key_eq_filter hnodes
  · intro q
    simp only [Registry.free, List.mem_singleton, Function.update_apply]

theorem rmCells_eq {cells : List CellPtr} (hnodup : cells.Nodup)
    (hnodes : (r.cells.map CellNode.cell).Nodup)
    (hcells : ∀ p ∈ cells, p ∈ r.cells.map CellNode.cell ∧ ∃ c, r.heap p = some c) :
    ∃ r', r.rmCells cells = .done r' ∧ CellsRemoved r r' cells := by
  induction cells generalizing r with
  | nil =>
    refine ⟨r, rfl, rfl, rfl, rfl, rfl, rfl, ?_, ?_⟩
    · simp
    · simp
  | cons p cells ih =>
    rw [List.nodup_cons] at hnodup
    rw [List.forall_mem_cons] at hcells
    obtain ⟨⟨hp, c, hc⟩, hcells⟩ := hcells
    obtain ⟨r₁, hrm, h₁⟩ := rmCell_eq hnodes hp
    obtain ⟨r', hrest, h'⟩ := ih (r := r₁) hnodup.2
      (h₁.cells ▸ KeyedList.nodup_map_filter hnodes _) (by
        intro q hq
        obtain ⟨hmem, d, hd⟩ := hcells q hq
        have hqp : q ∉ [p] := by
          rw [List.mem_singleton]
          rintro rfl
          exact hnodup.1 hq
        refine ⟨?_, d, by rw [h₁.heap, if_neg hqp, hd]⟩
        obtain ⟨n, hn, rfl⟩ := List.mem_map.mp hmem
        rw [h₁.cells]
        exact List.mem_map_of_mem (List.mem_filter.mpr ⟨hn, decide_eq_true hqp⟩))
    refine ⟨r', ?_, h'.dus.trans h₁.dus, h'.numDus.trans h₁.numDus, h'.next.trans h₁.next,
      ?_, ?_, ?_, ?_⟩
    · rw [Registry.rmCells, Registry.deref, hc]
      dsimp only
      rw [Outcome.done_bind, hrm, Outcome.done_bind, hrest]
    · rw [h'.numCells, h₁.numCells, List.length_singleton, List.length_cons]
      omega
    · rw [h'.length_cells, h₁.length_cells, List.length_singleton, List.length_cons]
      omega
    · rw [h'.cells, h₁.cells, List.filter_filter]
      apply List.filter_congr
      intro n _
      simp [not_or, Bool.and_comm]
    · intro q
      rw [h'.heap, h₁.heap]
      by_cases hq : q ∈ cells
      · rw [if_pos hq, if_pos (List.mem_cons_of_mem _ hq)]
      · rw [if_neg hq]
        simp only [List.mem_cons, List.not_mem_nil, hq, or_false]

/-- A DU and its cells are gone, and the rest is as it was. -/
structure DuRemoved (r r' : Registry) (du : Du) : Prop where
  dus : r'.dus = r.dus.filter fun e => e.assocId ≠ du.assocId
  cells : r'.cells = r.cells.filter fun n => n.cell ∉ du.cells
  heap : ∀ p, r'.heap p = if p ∈ du.cells then none else r.heap p

namespace RegistryOk

theorem cleanupDu (h : RegistryOk r) (hdu : du ∈ r.dus) :
    ∃ r', r.cleanupDu du = .done r' ∧ DuRemoved r r' du ∧ RegistryOk r' := by
  obtain ⟨r₁, hrm, h₁⟩ := rmCells_eq
    (List.nodup_reverse.mpr (h.nodup_cells hdu)) h.nodup_map_cell (by
      intro p hp
      obtain ⟨c, hc, -, hin⟩ := h.du_cell du hdu p (List.mem_reverse.mp hp)
      exact ⟨List.mem_map_of_mem hin, c, hc⟩)
  have hany : (r₁.dus.any fun e => e.assocId = du.assocId) = true := by
    rw [h₁.dus]
    exact List.any_eq_true.mpr ⟨du, hdu, decide_eq_true rfl⟩
  obtain ⟨r', hr'⟩ : ∃ r', r' = { r₁ with
      dus := r₁.dus.eraseP fun e => e.assocId = du.assocId, numDus := r₁.numDus - 1 } := ⟨_, rfl⟩
  have hremoved : DuRemoved r r' du := by
    refine ⟨?_, ?_, ?_⟩
    · rw [hr', h₁.dus]
      exact KeyedList.eraseP_key_eq_filter h.dus_nodup
    · rw [hr']
      simpa only [List.mem_reverse] using h₁.cells
    · rw [hr']
      simpa only [List.mem_reverse] using h₁.heap
  refine ⟨r', ?_, hremoved, ?_⟩
  · rw [Registry.cleanupDu, hrm, Outcome.done_bind, Registry.rmDu, if_pos hany, hr']
  have hheap : ∀ q d, r'.heap q = some d → q ∉ du.cells ∧ r.heap q = some d := by
    intro q d hd
    rw [hremoved.heap] at hd
    split_ifs at hd with hq
    exact ⟨hq, hd⟩
  have hkept : ∀ q, q ∉ du.cells → r'.heap q = r.heap q := by
    intro q hq
    rw [hremoved.heap, if_neg hq]
  have hdus : ∀ e, e ∈ r'.dus ↔ e ∈ r.dus ∧ e.assocId ≠ du.assocId := by
    intro e
    rw [hremoved.dus, List.mem_filter, decide_eq_true_iff]
  have hcells : ∀ n, n ∈ r'.cells ↔ n ∈ r.cells ∧ n.cell ∉ du.cells := by
    intro n
    rw [hremoved.cells, List.mem_filter, decide_eq_true_iff]
  -- a pointer in another array is not in the array of the DU
  have hapart : ∀ e ∈ r.dus, e.assocId ≠ du.assocId → ∀ q ∈ e.cells, q ∉ du.cells := by
    intro e he hne q hq hq'
    obtain ⟨d, hd, hassoc, -⟩ := h.du_cell e he q hq
    obtain ⟨d', hd', hassoc', -⟩ := h.du_cell du hdu q hq'
    obtain rfl := Option.some.inj (hd.symm.trans hd')
    exact hne (hassoc.symm.trans hassoc')
  refine ⟨?_, ?_, ?_, ?_, ?_, ?_, ?_, ?_⟩
  · rw [hr']
    dsimp only
    rw [h₁.dus, h₁.numDus, h.numDus]
    exact (List.length_eraseP_of_mem hdu (decide_eq_true rfl)).symm
  · rw [hr']
    dsimp only
    rw [h₁.numCells, h₁.length_cells, h.numCells]
  · rw [hremoved.dus]
    exact KeyedList.nodup_map_filter h.dus_nodup _
  · rw [hremoved.cells]
    exact KeyedList.nodup_map_filter h.keys_nodup _
  · intro n hn
    obtain ⟨hn, hout⟩ := (hcells n).mp hn
    obtain ⟨d, hd, hkey, e, he, hassoc, hmem⟩ := h.node n hn
    refine ⟨d, by rw [hkept _ hout, hd], hkey, e, (hdus e).mpr ⟨he, ?_⟩, hassoc, hmem⟩
    intro hsame
    obtain rfl := List.inj_on_of_nodup_map h.dus_nodup he hdu hsame
    exact hout hmem
  · intro e he q hq
    obtain ⟨he, hne⟩ := (hdus e).mp he
    obtain ⟨d, hd, hassoc, hin⟩ := h.du_cell e he q hq
    have hout := hapart e he hne q hq
    exact ⟨d, by rw [hkept _ hout, hd], hassoc, (hcells _).mpr ⟨hin, hout⟩⟩
  · intro e he
    obtain ⟨he, -⟩ := (hdus e).mp he
    refine (h.pcis e he).imp ?_
    intro u v hne d f hd hf
    exact hne d f (hheap u d hd).2 (hheap v f hf).2
  · intro q hq
    rw [hremoved.heap]
    split_ifs
    · rfl
    · refine h.fresh q ?_
      rw [hr'] at hq
      exact h₁.next ▸ hq

end RegistryOk

end LlmHric.Rrc
