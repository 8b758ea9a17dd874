import LlmHric.Rlc.ReceiveTermination
import Mathlib.Algebra.BigOperators.Group.Finset.Basic
import Mathlib.Algebra.Order.BigOperators.Group.List

/-! `rx_size` is raised when a segment is put into its slot, and lowered when the segments of an SDU
are reassembled. A segment can still be put behind the ones of an SDU that has been delivered, if it
has bytes behind the last segment. Its data is freed with the slot when the window moves past it,
and `rx_size` is not lowered. -/

namespace LlmHric.Rlc

/-! ### Slots -/

/-- The sizes of the segments that hold data. -/
def dataSize (l : List Pdu) : ℕ := ((l.filter (·.data.isSome)).map (·.size)).sum

/-- Either no segment of the slot has been delivered, or the first one has, and it is at the
beginning of the SDU, so that no other one comes before it. -/
structure GoodSlot (l : List Pdu) : Prop where
  size_pos : ∀ pdu ∈ l, 0 < pdu.size
  data : sduDelivered l = false → ∀ pdu ∈ l, pdu.data.isSome
  so : sduDelivered l = true → ∀ pdu ∈ l.head?, pdu.so = 0

variable {l : List Pdu} {pdu : Pdu}

@[simp] theorem dataSize_nil : dataSize [] = 0 := rfl

theorem dataSize_cons (pdu : Pdu) (l : List Pdu) :
    dataSize (pdu :: l) = (if pdu.data.isSome then pdu.size else 0) + dataSize l := by
  rw [dataSize, dataSize, List.filter_cons]
  split_ifs with hdata
  · rw [List.map_cons, List.sum_cons]
  · rw [Nat.zero_add]

theorem dataSize_insertPdu (hdata : pdu.data.isSome) (l : List Pdu) :
    dataSize (insertPdu pdu l) = pdu.size + dataSize l := by
  induction l with
  | nil => rw [insertPdu, dataSize_cons, if_pos hdata]
  | cons cur l ih =>
    rw [insertPdu]
    split_ifs
    · rw [dataSize_cons pdu, if_pos hdata]
    · rw [dataSize_cons, ih, dataSize_cons]
      omega

theorem dataSize_processed (l : List Pdu) : dataSize (l.map Pdu.processed) = 0 := by
  induction l with
  | nil => rfl
  | cons pdu l ih =>
    rw [List.map_cons, dataSize_cons, ih]
    rfl

/-- Where all segments hold data, the sizes of all segments are counted. -/
theorem dataSize_eq_sum (h : ∀ pdu ∈ l, pdu.data.isSome) :
    (dataSize l : ℤ) = (l.map fun pdu => (pdu.size : ℤ)).sum := by
  induction l with
  | nil => rfl
  | cons pdu l ih =>
    rw [dataSize_cons, if_pos (h pdu (List.mem_cons_self ..)), List.map_cons, List.sum_cons,
      ← ih fun s hs => h s (List.mem_cons_of_mem _ hs), Nat.cast_add]

theorem dataSize_eq_zero_iff (h : ∀ pdu ∈ l, 0 < pdu.size) :
    dataSize l = 0 ↔ ∀ pdu ∈ l, pdu.data = none := by
  induction l with
  | nil => simp
  | cons pdu l ih =>
    have hpos := h pdu (List.mem_cons_self ..)
    rw [dataSize_cons, List.forall_mem_cons, ← ih fun s hs => h s (List.mem_cons_of_mem _ hs),
      ← Option.not_isSome_iff_eq_none]
    split_ifs with hdata
    · exact ⟨fun hsum => by omega, fun hnot => absurd hdata hnot.1⟩
    · exact ⟨fun hsum => ⟨hdata, by omega⟩, fun hnot => by omega⟩

theorem mem_insertPdu {s : Pdu} : s ∈ insertPdu pdu l ↔ s = pdu ∨ s ∈ l := by
  induction l with
  | nil => rw [insertPdu, List.mem_singleton, or_iff_left List.not_mem_nil]
  | cons cur l ih =>
    rw [insertPdu]
    split_ifs
    · exact List.mem_cons
    · rw [List.mem_cons, ih, List.mem_cons]
      exact or_left_comm

/-- The first segment of a full SDU is at its beginning. -/
theorem so_of_sduFull (h : sduFull l = true) : ∀ pdu ∈ l.head?, pdu.so = 0 := by
  intro pdu hpdu
  cases l with
  | nil => cases hpdu
  | cons cur l =>
    obtain rfl := Option.some.inj hpdu
    rw [sduFull, Bool.and_eq_true, fullFrom] at h
    by_contra hso
    rw [if_pos (by omega)] at h
    exact Bool.false_ne_true h.2

namespace GoodSlot

theorem nil : GoodSlot [] :=
  ⟨fun _ h => absurd h List.not_mem_nil, fun _ _ h => absurd h List.not_mem_nil,
    fun h => by cases h⟩

theorem insertPdu (h : GoodSlot l) (hpos : 0 < pdu.size) (hdata : pdu.data.isSome) :
    GoodSlot (insertPdu pdu l) := by
  have hsize : ∀ s ∈ Rlc.insertPdu pdu l, 0 < s.size := by
    intro s hs
    rcases mem_insertPdu.mp hs with rfl | hs
    · exact hpos
    · exact h.size_pos s hs
  by_cases hdel : sduDelivered l = true
  · -- the first segment stays the first one
    obtain ⟨cur, rest, rfl⟩ : ∃ cur rest, l = cur :: rest := by
      cases l with
      | nil => cases hdel
      | cons cur rest => exact ⟨cur, rest, rfl⟩
    have hso : cur.so = 0 := h.so hdel cur rfl
    have hinsert : Rlc.insertPdu pdu (cur :: rest) = cur :: Rlc.insertPdu pdu rest := by
      rw [Rlc.insertPdu, if_neg (by omega)]
    rw [hinsert] at hsize ⊢
    refine ⟨hsize, fun hnot => ?_, fun _ => h.so hdel⟩
    exact absurd (hdel.symm.trans hnot) (by decide)
  · have hall : ∀ s ∈ Rlc.insertPdu pdu l, s.data.isSome := by
      intro s hs
      rcases mem_insertPdu.mp hs with rfl | hs
      · exact hdata
      · exact h.data (Bool.eq_false_iff.mpr hdel) s hs
    refine ⟨hsize, fun _ => hall, fun hdel' => ?_⟩
    cases hl : Rlc.insertPdu pdu l with
    | nil =>
      rw [hl] at hdel'
      cases hdel'
    | cons cur rest =>
      rw [hl] at hdel' hall
      have hsome := hall cur (List.mem_cons_self ..)
      rw [sduDelivered, Option.isNone_iff_eq_none] at hdel'
      rw [hdel'] at hsome
      cases hsome

theorem processed (h : GoodSlot l) (hfull : sduFull l = true) :
    GoodSlot (l.map Pdu.processed) := by
  refine ⟨?_, fun hnot => ?_, fun _ => ?_⟩
  · intro s hs
    obtain ⟨pdu, hpdu, rfl⟩ := List.mem_map.mp hs
    exact h.size_pos pdu hpdu
  · exact absurd ((AmEntity.sduDelivered_processed hfull).symm.trans hnot) (by decide)
  · intro s hs
    rw [List.head?_map, Option.mem_def, Option.map_eq_some_iff] at hs
    obtain ⟨pdu, hpdu, rfl⟩ := hs
    exact so_of_sduFull hfull pdu hpdu

theorem data_of_sduFull (h : GoodSlot l) (hfull : sduFull l = true) :
    ∀ pdu ∈ l, pdu.data.isSome := by
  refine h.data ?_
  rw [sduFull, Bool.and_eq_true, Bool.not_eq_true'] at hfull
  exact hfull.1

end GoodSlot

/-! ### The ring -/

namespace RxManager

variable {m : RxManager} {sn k : ℕ}

/-- The sizes of the segments of the ring that hold data. -/
def dataTotal (m : RxManager) : ℕ := ∑ p ∈ Finset.range m.size, dataSize (m.rxList p)

/-- The slot that lies a number of slots ahead of the one of a sequence number. -/
def ahead (m : RxManager) (sn k : ℕ) : List Pdu := m.rxList ((m.getPos sn + k) % m.size)

theorem rxList_setPduFromSn_self (sn : ℕ) (l : List Pdu) :
    (m.setPduFromSn sn l).rxList (m.getPos sn) = l :=
  Function.update_self _ _ _

theorem rxList_setPduFromSn_of_ne {p : ℕ} (hp : p ≠ m.getPos sn) (l : List Pdu) :
    (m.setPduFromSn sn l).rxList p = m.rxList p :=
  Function.update_of_ne hp _ _

theorem dataTotal_setPduFromSn (hsize : 0 < m.size) (sn : ℕ) (l : List Pdu) :
    (m.setPduFromSn sn l).dataTotal + dataSize (m.getPduFromSn sn) =
      m.dataTotal + dataSize l := by
  have hmem : m.getPos sn ∈ Finset.range m.size := Finset.mem_range.mpr (getPos_lt hsize sn)
  have hothers : ∑ p ∈ (Finset.range m.size).erase (m.getPos sn),
        dataSize ((m.setPduFromSn sn l).rxList p) =
      ∑ p ∈ (Finset.range m.size).erase (m.getPos sn), dataSize (m.rxList p) := by
    refine Finset.sum_congr rfl fun p hp => ?_
    rw [rxList_setPduFromSn_of_ne (Finset.ne_of_mem_erase hp)]
  have hself := m.rxList_setPduFromSn_self sn l
  have hnew := Finset.add_sum_erase (Finset.range m.size)
    (fun p => dataSize ((m.setPduFromSn sn l).rxList p)) hmem
  have hold := Finset.add_sum_erase (Finset.range m.size) (fun p => dataSize (m.rxList p)) hmem
  simp only [hself, hothers] at hnew
  change ∑ p ∈ Finset.range m.size, dataSize ((m.setPduFromSn sn l).rxList p) +
    dataSize (m.rxList (m.getPos sn)) = ∑ p ∈ Finset.range m.size, dataSize (m.rxList p) + _
  omega

theorem ahead_zero (hsize : 0 < m.size) : m.ahead sn 0 = m.getPduFromSn sn := by
  rw [ahead, Nat.add_zero, Nat.mod_eq_of_lt (getPos_lt hsize sn), getPduFromSn]

/-- The slots ahead of a sequence number do not depend on its own slot. -/
theorem ahead_setPduFromSn (hsize : 0 < m.size) (hpos : 0 < k) (hk : k < m.size) (l : List Pdu) :
    (m.setPduFromSn sn l).ahead sn k = m.ahead sn k := by
  refine rxList_setPduFromSn_of_ne ?_ l
  have hlt := getPos_lt hsize sn
  change (m.getPos sn + k) % m.size ≠ m.getPos sn
  by_cases hwrap : m.getPos sn + k < m.size
  · rw [Nat.mod_eq_of_lt hwrap]
    omega
  · rw [Nat.mod_eq_sub_mod (by omega), Nat.mod_eq_of_lt (by omega)]
    omega

theorem ahead_succ (hstart : m.snStart ≤ m.size * 2) (sn k : ℕ) :
    m.ahead ((sn + 1) % (2 * m.size)) k = m.ahead sn (k + 1) := by
  rw [ahead, ahead, getPos_succ hstart, Nat.mod_add_mod]
  congr 2
  omega

/-- A full turn leads back. -/
theorem ahead_size (sn : ℕ) (hsize : 0 < m.size) : m.ahead sn m.size = m.getPduFromSn sn := by
  rw [ahead, Nat.add_mod_right, Nat.mod_eq_of_lt (getPos_lt hsize sn), getPduFromSn]

/-- The delivered SDUs from a sequence number on hold no data. -/
def HeadEmpty (m : RxManager) (sn : ℕ) : Prop :=
  ∀ k < m.size, (∀ j ≤ k, sduDelivered (m.ahead sn j) = true) → dataSize (m.ahead sn k) = 0

/-- The delivered SDUs from a sequence number on are the one of the slot, and the ones from the next
sequence number on when the slot has been cleared. -/
theorem headEmpty_iff (hsize : 0 < m.size) (hstart : m.snStart ≤ m.size * 2)
    (hslot : sduDelivered (m.getPduFromSn sn) = true) :
    m.HeadEmpty sn ↔ dataSize (m.getPduFromSn sn) = 0 ∧
      (m.clearPdu sn).HeadEmpty ((sn + 1) % (2 * m.size)) := by
  have hnext : ∀ j, (m.clearPdu sn).ahead ((sn + 1) % (2 * m.size)) j =
      (m.clearPdu sn).ahead sn (j + 1) := ahead_succ (m := m.clearPdu sn) hstart sn
  have hsame : ∀ j, j + 1 < m.size → (m.clearPdu sn).ahead sn (j + 1) = m.ahead sn (j + 1) :=
    fun j hj => ahead_setPduFromSn hsize (Nat.succ_pos j) hj []
  have hself : (m.clearPdu sn).ahead sn m.size = [] :=
    (ahead_size (m := m.clearPdu sn) sn hsize).trans (m.rxList_setPduFromSn_self sn [])
  constructor
  · intro h
    refine ⟨?_, ?_⟩
    · have hzero := h 0 hsize
      rw [ahead_zero hsize] at hzero
      refine hzero fun j hj => ?_
      rw [Nat.le_zero.mp hj, ahead_zero hsize]
      exact hslot
    · intro k hk hchain
      have hlast : k + 1 < m.size := by
        refine lt_of_le_of_ne hk fun heq => ?_
        -- the slot itself is empty now
        have hdel := hchain k le_rfl
        rw [hnext, heq, hself] at hdel
        cases hdel
      rw [hnext, hsame k hlast]
      refine h (k + 1) hlast fun j hj => ?_
      cases j with
      | zero =>
        rw [ahead_zero hsize]
        exact hslot
      | succ j =>
        have hj' := hchain j (by omega)
        rwa [hnext, hsame j (by omega)] at hj'
  · rintro ⟨hzero, h⟩ k hk hchain
    cases k with
    | zero =>
      rw [ahead_zero hsize]
      exact hzero
    | succ k =>
      have hk' := h k (Nat.lt_of_succ_lt hk)
      rw [hnext, hsame k hk] at hk'
      refine hk' fun j hj => ?_
      rw [hnext, hsame j (by omega)]
      exact hchain (j + 1) (by omega)

end RxManager

namespace AmEntity

variable {e e' : AmEntity} {x fuel : ℕ}

/-- The data in the slots that the second loop clears is lost. -/
theorem freeDelivered_data {fuel rxNext count rxNext' count' : ℕ} {rx rx' : RxManager}
    (hsize : 0 < rx.size) (hstart : rx.snStart ≤ rx.size * 2)
    (h : freeDelivered (2 * rx.size) fuel rx rxNext count = some (rx', rxNext', count')) :
    rx'.dataTotal ≤ rx.dataTotal ∧
      (rx'.dataTotal = rx.dataTotal ↔ rx.HeadEmpty rxNext) := by
  induction fuel generalizing rx rxNext count with
  | zero => cases h
  | succ fuel ih =>
    rw [freeDelivered] at h
    split_ifs at h with hslot
    · have hclear : (rx.clearPdu rxNext).dataTotal + dataSize (rx.getPduFromSn rxNext) =
          rx.dataTotal := RxManager.dataTotal_setPduFromSn hsize rxNext []
      obtain ⟨hle, hiff⟩ : rx'.dataTotal ≤ (rx.clearPdu rxNext).dataTotal ∧
          (rx'.dataTotal = (rx.clearPdu rxNext).dataTotal ↔
            (rx.clearPdu rxNext).HeadEmpty ((rxNext + 1) % (2 * rx.size))) :=
        ih hsize hstart h
      rw [RxManager.headEmpty_iff hsize hstart hslot, ← hiff]
      omega
    · cases h
      refine ⟨le_rfl, iff_of_true rfl fun k hk hchain => ?_⟩
      have hzero := hchain 0 (Nat.zero_le k)
      rw [RxManager.ahead_zero hsize] at hzero
      exact absurd hzero hslot

/-! ### The buffer -/

/-- The sizes of the buffered segments that hold data. -/
def bufferedSize (e : AmEntity) : ℕ := e.rx.dataTotal

/-- How far `rx_size` is above the size of the data. -/
def rxExcess (e : AmEntity) : ℤ := e.rxSize - e.bufferedSize

/-- The invariant of the receiving side with its slots. -/
structure BufferInv (e : AmEntity) : Prop where
  ring : e.RxInv
  slots : ∀ p, GoodSlot (e.rx.rxList p)

theorem BufferInv.congr (h : e.BufferInv) (heq : e'.rxCore = e.rxCore) : e'.BufferInv := by
  refine ⟨h.ring.congr heq, ?_⟩
  simp only [rxCore, Prod.mk.injEq] at heq
  rw [heq.2.2.2.1]
  exact h.slots

theorem rxExcess_congr (heq : e'.rxCore = e.rxCore) : e'.rxExcess = e.rxExcess := by
  simp only [rxCore, Prod.mk.injEq] at heq
  rw [rxExcess, rxExcess, bufferedSize, bufferedSize, heq.2.2.2.1, heq.2.2.2.2]

/-- A slot gets another good list. -/
theorem goodSlot_setPduFromSn {m : RxManager} (h : ∀ p, GoodSlot (m.rxList p)) {l : List Pdu}
    (hl : GoodSlot l) (sn p : ℕ) : GoodSlot ((m.setPduFromSn sn l).rxList p) := by
  by_cases hp : p = m.getPos sn
  · rw [hp, RxManager.rxList_setPduFromSn_self]
    exact hl
  · rw [RxManager.rxList_setPduFromSn_of_ne hp]
    exact h p

theorem BufferInv.addPdu (h : e.BufferInv) (hpos : 0 < pdu.size) (hdata : pdu.data.isSome) :
    (e.addPdu pdu).BufferInv :=
  ⟨h.ring.addPdu pdu, goodSlot_setPduFromSn h.slots ((h.slots _).insertPdu hpos hdata) pdu.sn⟩

theorem rxExcess_addPdu (h : e.BufferInv) (hdata : pdu.data.isSome) :
    (e.addPdu pdu).rxExcess = e.rxExcess := by
  have htotal := RxManager.dataTotal_setPduFromSn (m := e.rx) h.ring.size_pos pdu.sn
    (insertPdu pdu (e.rx.getPduFromSn pdu.sn))
  rw [dataSize_insertPdu hdata] at htotal
  change e.rxSize + pdu.size - ((e.rx.addPdu pdu).dataTotal : ℤ) = e.rxSize - e.rx.dataTotal
  rw [RxManager.addPdu]
  omega

theorem BufferInv.reassemble (h : e.BufferInv) (hfull : sduFull (e.rx.getPduFromSn x) = true) :
    (e.reassembleAndDeliver x).BufferInv := by
  refine ⟨h.ring.reassembleAndDeliver x, ?_⟩
  rw [rx_reassembleAndDeliver]
  exact goodSlot_setPduFromSn h.slots ((h.slots _).processed hfull) x

theorem rxExcess_reassembleAndDeliver (h : e.BufferInv)
    (hfull : sduFull (e.rx.getPduFromSn x) = true) :
    (e.reassembleAndDeliver x).rxExcess = e.rxExcess := by
  have htotal := RxManager.dataTotal_setPduFromSn (m := e.rx) h.ring.size_pos x
    ((e.rx.getPduFromSn x).map Pdu.processed)
  have hsum : (dataSize (e.rx.getPduFromSn x) : ℤ) = _ :=
    dataSize_eq_sum ((h.slots _).data_of_sduFull hfull)
  have hcore := rxCore_reassembleAndDeliver (e := e) (x := x)
  simp only [rxCore, Prod.mk.injEq] at hcore
  obtain ⟨-, -, -, hrx, hsize⟩ := hcore
  rw [dataSize_processed] at htotal
  rw [rxExcess, rxExcess, bufferedSize, bufferedSize, hrx, hsize, ← hsum]
  omega

theorem BufferInv.updateHighestStatus (h : e.BufferInv)
    (he : e.updateHighestStatus fuel x = some e') :
    e'.BufferInv ∧ e'.rx = e.rx ∧ e'.rxNext = e.rxNext ∧ e'.rxExcess = e.rxExcess := by
  rw [AmEntity.updateHighestStatus] at he
  split_ifs at he
  · obtain ⟨sn, -, rfl⟩ := Option.map_eq_some_iff.mp he
    exact ⟨⟨⟨h.ring.size_eq, h.ring.snStart_eq, h.ring.rxNext_lt⟩, h.slots⟩, rfl, rfl, rfl⟩
  · cases he
    exact ⟨h, rfl, rfl, rfl⟩

/-- The slots that the second loop leaves are those of before or empty. -/
theorem goodSlot_freeDelivered {snModulus rxNext count rxNext' count' : ℕ} {rx rx' : RxManager}
    (hslots : ∀ p, GoodSlot (rx.rxList p))
    (h : freeDelivered snModulus fuel rx rxNext count = some (rx', rxNext', count')) :
    ∀ p, GoodSlot (rx'.rxList p) := by
  induction fuel generalizing rx rxNext count with
  | zero => cases h
  | succ fuel ih =>
    rw [freeDelivered] at h
    split_ifs at h
    · exact ih (goodSlot_setPduFromSn hslots .nil rxNext) h
    · cases h
      exact hslots

theorem BufferInv.updateRxNext (h : e.BufferInv) (he : e.updateRxNext fuel x = some e') :
    e'.BufferInv ∧ e.rxExcess ≤ e'.rxExcess ∧
      (e'.rxExcess = e.rxExcess ↔ (x = e.rxNext → e.rx.HeadEmpty e.rxNext)) := by
  have hring := h.ring.updateRxNext he
  rw [AmEntity.updateRxNext] at he
  split_ifs at he with hx
  · obtain ⟨⟨rx, rxNext, count⟩, hfree, rfl⟩ := Option.map_eq_some_iff.mp he
    have hmod : e.cfg.snModulus = 2 * e.rx.size := by rw [h.ring.size_eq, e.cfg.snModulus_eq]
    have hstart : e.rx.snStart ≤ e.rx.size * 2 := by
      have hlt := h.ring.rxNext_lt
      rw [h.ring.snStart_eq]
      omega
    have hfree' := hfree
    rw [hmod] at hfree'
    obtain ⟨hle, hiff⟩ := freeDelivered_data h.ring.size_pos hstart hfree'
    have hslots := goodSlot_freeDelivered h.slots hfree
    refine ⟨⟨hring, hslots⟩, ?_⟩
    change e.rxSize - (e.rx.dataTotal : ℤ) ≤ e.rxSize - rx.dataTotal ∧
      (e.rxSize - (rx.dataTotal : ℤ) = e.rxSize - e.rx.dataTotal ↔ _)
    rw [← hiff]
    omega
  · cases he
    exact ⟨h, le_rfl, iff_of_true rfl fun heq => absurd heq hx⟩

/-- What the completion of an SDU does to `rx_size`. -/
theorem BufferInv.completeSdu (h : e.BufferInv) (hfull : sduFull (e.rx.getPduFromSn x) = true)
    (he : e.completeSdu fuel x = some e') :
    e'.BufferInv ∧ e.rxExcess ≤ e'.rxExcess ∧ (e'.rxExcess = e.rxExcess ↔
      (x = e.rxNext → (e.reassembleAndDeliver x).rx.HeadEmpty e.rxNext)) := by
  obtain ⟨e₁, he₁, he⟩ := Option.bind_eq_some_iff.mp he
  obtain ⟨h₁, hrx, hnext, hexcess⟩ := (h.reassemble hfull).updateHighestStatus he₁
  have hnext' : (e.reassembleAndDeliver x).rxNext = e.rxNext := by
    rw [reassembleAndDeliver]
    split <;> rfl
  rw [rxExcess_reassembleAndDeliver h hfull] at hexcess
  have hupdate := h₁.updateRxNext he
  rwa [hexcess, hrx, hnext, hnext'] at hupdate

/-- A PDU completes the SDU `rx_next`, and a segment that holds data lies in the slot of one of the
delivered SDUs behind it. -/
def FreesData (e : AmEntity) (pdu : Pdu) : Prop :=
  pdu.sn = e.rxNext ∧ sduFull ((e.rx.addPdu pdu).getPduFromSn pdu.sn) = true ∧
    ∃ k, 0 < k ∧ k < e.rx.size ∧
      (∀ j, 0 < j → j ≤ k → sduDelivered (e.rx.ahead e.rxNext j) = true) ∧
      ∃ s ∈ e.rx.ahead e.rxNext k, s.data ≠ none

/-- When the SDU of a slot has been processed, only the slots behind it matter. -/
theorem headEmpty_setPduFromSn {m : RxManager} {sn : ℕ} (hsize : 0 < m.size)
    (hslots : ∀ p, GoodSlot (m.rxList p)) {l : List Pdu} (hl : dataSize l = 0)
    (hdel : sduDelivered l = true) :
    (m.setPduFromSn sn l).HeadEmpty sn ↔
      ¬ ∃ k, 0 < k ∧ k < m.size ∧ (∀ j, 0 < j → j ≤ k → sduDelivered (m.ahead sn j) = true) ∧
        ∃ s ∈ m.ahead sn k, s.data ≠ none := by
  have hself : (m.setPduFromSn sn l).ahead sn 0 = l :=
    (RxManager.ahead_zero (m := m.setPduFromSn sn l) hsize).trans (m.rxList_setPduFromSn_self sn l)
  have hothers : ∀ j, 0 < j → j < m.size → (m.setPduFromSn sn l).ahead sn j = m.ahead sn j :=
    fun j hpos hj => RxManager.ahead_setPduFromSn hsize hpos hj l
  have hzero : ∀ k, dataSize (m.ahead sn k) = 0 ↔ ∀ s ∈ m.ahead sn k, s.data = none :=
    fun k => dataSize_eq_zero_iff (hslots _).size_pos
  constructor
  · rintro h ⟨k, hpos, hk, hchain, s, hs, hdata⟩
    have hk' := h k hk
    rw [hothers k hpos hk, hzero] at hk'
    refine hdata (hk' (fun j hj => ?_) s hs)
    rcases Nat.eq_zero_or_pos j with rfl | hjpos
    · rw [hself]
      exact hdel
    · rw [hothers j hjpos (by omega)]
      exact hchain j hjpos hj
  · intro h k hk hchain
    have hlt : k < m.size := hk
    rcases Nat.eq_zero_or_pos k with rfl | hpos
    · rw [hself]
      exact hl
    · rw [hothers k hpos hk, hzero]
      intro s hs
      by_contra hdata
      refine h ⟨k, hpos, hk, fun j hjpos hj => ?_, s, hs, hdata⟩
      have hj' := hchain j hj
      rwa [hothers j hjpos (by omega)] at hj'

/-- The slots behind the one of a PDU are the same with the PDU in its slot. -/
theorem freesData_iff (hsize : 0 < e.rx.size) (hsn : pdu.sn = e.rxNext)
    (hfull : sduFull ((e.rx.addPdu pdu).getPduFromSn pdu.sn) = true) :
    e.FreesData pdu ↔ ∃ k, 0 < k ∧ k < e.rx.size ∧
      (∀ j, 0 < j → j ≤ k → sduDelivered ((e.rx.addPdu pdu).ahead pdu.sn j) = true) ∧
        ∃ s ∈ (e.rx.addPdu pdu).ahead pdu.sn k, s.data ≠ none := by
  have hahead : ∀ j, 0 < j → j < e.rx.size →
      (e.rx.addPdu pdu).ahead pdu.sn j = e.rx.ahead e.rxNext j := by
    intro j hpos hj
    rw [← hsn]
    exact RxManager.ahead_setPduFromSn hsize hpos hj _
  rw [FreesData, and_iff_right hsn, and_iff_right hfull]
  refine exists_congr fun k => and_congr_right fun hpos => and_congr_right fun hk => ?_
  rw [hahead k hpos hk]
  refine and_congr_left' (forall₃_congr fun j hjpos hj => ?_)
  rw [hahead j hjpos (by omega)]

/-- What the reception of an accepted PDU does to `rx_size`. -/
theorem BufferInv.receptionActions (h : e.BufferInv) (hpos : 0 < pdu.size)
    (hdata : pdu.data.isSome) (he : (e.addPdu pdu).receptionActions fuel pdu.sn = some e') :
    e'.BufferInv ∧ e.rxExcess ≤ e'.rxExcess ∧
      (e'.rxExcess = e.rxExcess ↔ ¬ e.FreesData pdu) := by
  have hexcess := rxExcess_addPdu h hdata
  have hcore : ((e.addPdu pdu).updateNextHighest pdu.sn).rxCore = (e.addPdu pdu).rxCore :=
    rxCore_updateNextHighest
  have hinv := (h.addPdu hpos hdata).congr hcore
  have hrx : ((e.addPdu pdu).updateNextHighest pdu.sn).rx = e.rx.addPdu pdu := rx_updateNextHighest
  have hnext : ((e.addPdu pdu).updateNextHighest pdu.sn).rxNext = e.rxNext :=
    congrArg (fun core => core.2.1) hcore
  rw [← rxExcess_congr hcore] at hexcess
  obtain ⟨e₁, he₁, rfl⟩ := Option.map_eq_some_iff.mp he
  rw [rxExcess_congr rxCore_updateTReassembly]
  suffices hactions : e₁.BufferInv ∧ e.rxExcess ≤ e₁.rxExcess ∧
      (e₁.rxExcess = e.rxExcess ↔ ¬ e.FreesData pdu) from
    ⟨hactions.1.congr rxCore_updateTReassembly, hactions.2⟩
  generalize (e.addPdu pdu).updateNextHighest pdu.sn = e₂ at *
  rw [← hexcess]
  split_ifs at he₁ with hfull
  · obtain ⟨hinv₁, hle, hiff⟩ := hinv.completeSdu hfull he₁
    refine ⟨hinv₁, hle, hiff.trans ?_⟩
    rw [hnext]
    by_cases hsn : pdu.sn = e.rxNext
    · rw [forall_prop_of_true hsn, rx_reassembleAndDeliver, hrx, ← hsn]
      have hslots := hinv.slots
      rw [hrx] at hfull hslots
      rw [freesData_iff h.ring.size_pos hsn hfull]
      exact headEmpty_setPduFromSn (m := e.rx.addPdu pdu) h.ring.size_pos hslots
        (dataSize_processed _) (sduDelivered_processed hfull)
    · exact iff_of_true (fun heq => absurd heq hsn) fun hfrees => hsn hfrees.1
  · cases he₁
    refine ⟨hinv, le_rfl, iff_of_true rfl fun hfrees => hfull ?_⟩
    rw [hrx]
    exact hfrees.2.1

theorem data_of_parseDataPdu {cfg : AmConfig} {d : Decoder} {p : Bool}
    (h : parseDataPdu cfg d = (p, some pdu)) : 0 < pdu.size ∧ pdu.data.isSome := by
  rw [parseDataPdu] at h
  split at h
  · cases h
  · obtain ⟨-, h⟩ := Prod.mk.inj h
    simp only [Option.bind_eq_bind, Option.bind_eq_some_iff] at h
    obtain ⟨si, -, r, -, sn, -, h⟩ := h
    split at h <;>
    · obtain ⟨so, -, h⟩ := Option.bind_eq_some_iff.mp h
      split_ifs at h with hso hlen
      cases h
      refine ⟨?_, rfl⟩
      simp only [newPdu, List.length_drop]
      omega

/-- The reception of a data PDU raises `rx_size` above the size of the data when it frees data, and
otherwise keeps the difference. -/
theorem BufferInv.recvPdu (h : e.BufferInv) {buffer : List UInt8} {d : Decoder}
    (hdc : (Decoder.init buffer).getBits 1 = some (1, d))
    (he : e.recvDataPdu fuel d = some e') :
    e'.BufferInv ∧ e.rxExcess ≤ e'.rxExcess ∧ (e'.rxExcess = e.rxExcess ↔
      ¬ ∃ pdu, e.Accepts buffer pdu ∧ e.FreesData pdu) := by
  have haccepts : ∀ pdu, e.Accepts buffer pdu ↔
      ∃ p, parseDataPdu e.cfg d = (p, some pdu) ∧ e.accepts pdu = true := by
    intro pdu
    constructor
    · rintro ⟨d', p, hdc', hparse, haccepts⟩
      obtain ⟨-, rfl⟩ := Prod.mk.inj (Option.some.inj (hdc.symm.trans hdc'))
      exact ⟨p, hparse, haccepts⟩
    · rintro ⟨p, hparse, haccepts⟩
      exact ⟨d, p, hdc, hparse, haccepts⟩
  simp only [haccepts]
  rw [recvDataPdu] at he
  split at he
  · next p hparse =>
    cases he
    refine ⟨h.congr (rxCore_poll p), (rxExcess_congr (rxCore_poll p)).ge, ?_⟩
    refine iff_of_true (rxExcess_congr (rxCore_poll p)) ?_
    rintro ⟨pdu, ⟨p', hparse', -⟩, -⟩
    cases hparse.symm.trans hparse'
  · next p pdu hparse =>
    split_ifs at he with hacc
    · obtain ⟨e₁, he₁, rfl⟩ := Option.map_eq_some_iff.mp he
      obtain ⟨hpos, hdata⟩ := data_of_parseDataPdu hparse
      obtain ⟨hinv, hle, hiff⟩ := h.receptionActions hpos hdata he₁
      rw [rxExcess_congr (rxCore_poll p)]
      refine ⟨hinv.congr (rxCore_poll p), hle, hiff.trans (not_congr ?_)⟩
      constructor
      · exact fun hfrees => ⟨pdu, ⟨p, hparse, hacc⟩, hfrees⟩
      · rintro ⟨pdu', ⟨p', hparse', -⟩, hfrees⟩
        cases hparse.symm.trans hparse'
        exact hfrees
    · cases he
      refine ⟨h.congr (rxCore_poll p), (rxExcess_congr (rxCore_poll p)).ge, ?_⟩
      refine iff_of_true (rxExcess_congr (rxCore_poll p)) ?_
      rintro ⟨pdu', ⟨p', hparse', hacc'⟩, -⟩
      cases hparse.symm.trans hparse'
      exact hacc hacc'

theorem rxExcess_eq_zero_iff : e.rxExcess = 0 ↔ e.rxSize = e.bufferedSize := Int.sub_eq_zero

def LosesData (e : AmEntity) : AmOp → Prop
  | .recvPdu buffer => ∃ pdu, e.Accepts buffer pdu ∧ e.FreesData pdu
  | _ => False

end AmEntity

/-! ### Runs -/

/-- A run of data PDUs and time steps in which no PDU frees data. -/
abbrev LosslessRun (cfg : AmConfig) (ops : List AmOp) (e : AmEntity) : Prop :=
  Run.Reach (fun op e e' => (op.IsReception ∧ ∃ fuel, e.op fuel op = some e') ∧ ¬ e.LosesData op)
    (· = AmEntity.new cfg) ops e

namespace AmEntity

variable {e e' : AmEntity}

theorem BufferInv.checkTReassembly {fuel : ℕ} (h : e.BufferInv)
    (he : e.checkTReassembly fuel = some e') : e'.BufferInv ∧ e'.rxExcess = e.rxExcess := by
  rw [AmEntity.checkTReassembly] at he
  split_ifs at he
  · cases he
    exact ⟨h, rfl⟩
  · obtain ⟨sn, -, rfl⟩ := Option.map_eq_some_iff.mp he
    have hcore := @rxCore_startTReassembly { e with
      tReassemblyStart := 0, rxHighestStatus := sn, statusTriggered := true } sn
    have hinv : BufferInv { e with
        tReassemblyStart := 0, rxHighestStatus := sn, statusTriggered := true } :=
      ⟨⟨h.ring.size_eq, h.ring.snStart_eq, h.ring.rxNext_lt⟩, h.slots⟩
    exact ⟨hinv.congr hcore, (rxExcess_congr hcore).trans rfl⟩

/-- What an operation of a run does to `rx_size`. -/
theorem BufferInv.op {op : AmOp} {fuel : ℕ} (h : e.BufferInv)
    (hpoll : e.tPollRetransmitStart = 0) (hreception : op.IsReception)
    (he : e.op fuel op = some e') :
    e'.BufferInv ∧ e.rxExcess ≤ e'.rxExcess ∧
      (e'.rxExcess = e.rxExcess ↔ ¬ e.LosesData op) := by
  cases op with
  | recvPdu buffer =>
    obtain ⟨d, hd⟩ := hreception
    have hdata : e.recvDataPdu fuel d = some e' := by
      simpa only [AmEntity.op, AmEntity.recvPdu, hd, one_ne_zero, if_false] using he
    exact h.recvPdu hd hdata
  | setTime now =>
    have hcheck : { e with tCurrent := now }.checkTReassembly fuel = some e' := by
      simpa [AmEntity.op, AmEntity.setTime,
        AmEntity.checkTPollRetransmit_of_zero (e := { e with tCurrent := now }) hpoll] using he
    have hinv : BufferInv { e with tCurrent := now } :=
      ⟨⟨h.ring.size_eq, h.ring.snStart_eq, h.ring.rxNext_lt⟩, h.slots⟩
    obtain ⟨hinv', hexcess⟩ := hinv.checkTReassembly hcheck
    exact ⟨hinv', hexcess.ge, iff_of_true hexcess id⟩
  | recvSdu _ _ => cases hreception
  | generatePdu _ => cases hreception
  | discardSdu _ => cases hreception

theorem bufferInv_new (cfg : AmConfig) : (new cfg).BufferInv :=
  ⟨⟨rfl, rfl, cfg.snModulus_pos⟩, fun _ => .nil⟩

theorem rxExcess_new (cfg : AmConfig) : (new cfg).rxExcess = 0 := by
  have htotal : (new cfg).bufferedSize = 0 := by
    rw [bufferedSize, RxManager.dataTotal]
    exact Finset.sum_eq_zero fun _ _ => rfl
  rw [rxExcess, htotal]
  rfl

end AmEntity

/-- In every run `rx_size` is at least the size of the data, and is right only when the run was
lossless. -/
theorem ReceiveRun.rxExcess {cfg : AmConfig} {ops : List AmOp} {e : AmEntity}
    (h : ReceiveRun cfg ops e) :
    e.BufferInv ∧ 0 ≤ e.rxExcess ∧ (e.rxExcess = 0 → LosslessRun cfg ops e) := by
  refine Run.Reach.traceInvariant (I := fun ops e => e.BufferInv ∧ 0 ≤ e.rxExcess ∧
    (e.rxExcess = 0 → LosslessRun cfg ops e)) h ?_ ?_
  · rintro _ rfl
    exact ⟨AmEntity.bufferInv_new cfg, (AmEntity.rxExcess_new cfg).ge, fun _ => .start rfl⟩
  · rintro ops op e e' hrun ⟨hinv, hpos, hclean⟩ ⟨hreception, fuel, he⟩
    obtain ⟨hinv', hle, hiff⟩ :=
      hinv.op (ReceiveRun.rxInv hrun).2 hreception he
    refine ⟨hinv', hpos.trans hle, fun hzero => ?_⟩
    have hzero' : e.rxExcess = 0 := le_antisymm (hzero ▸ hle) hpos
    exact (hclean hzero').step ⟨⟨hreception, fuel, he⟩, hiff.mp (hzero.trans hzero'.symm)⟩

/-- In a lossless run `rx_size` is right. -/
theorem LosslessRun.rxExcess {cfg : AmConfig} {ops : List AmOp} {e : AmEntity}
    (h : LosslessRun cfg ops e) : e.rxExcess = 0 := by
  have hinv : ReceiveRun cfg ops e ∧ e.rxExcess = 0 := by
    refine Run.Reach.traceInvariant (I := fun ops e => ReceiveRun cfg ops e ∧ e.rxExcess = 0) h ?_
      ?_
    · rintro _ rfl
      exact ⟨.start rfl, AmEntity.rxExcess_new cfg⟩
    · rintro ops op e e' - ⟨hrun, hzero⟩ ⟨⟨hreception, fuel, he⟩, hclean⟩
      obtain ⟨-, -, hiff⟩ := hrun.rxExcess.1.op hrun.rxInv.2 hreception he
      exact ⟨hrun.step ⟨hreception, fuel, he⟩, (hiff.mpr hclean).trans hzero⟩
  exact hinv.2

/-- After a run `rx_size` is the size of the buffered data, and not negative, exactly when no PDU of
the run freed data. -/
theorem rxSize_eq_iff (cfg : AmConfig) (ops : List AmOp) (e : AmEntity)
    (hrun : ReceiveRun cfg ops e) :
    e.rxSize = e.bufferedSize ∧ 0 ≤ e.rxSize ↔ LosslessRun cfg ops e := by
  obtain ⟨-, -, hclean⟩ := hrun.rxExcess
  constructor
  · exact fun h => hclean (AmEntity.rxExcess_eq_zero_iff.mpr h.1)
  · intro h
    have heq := AmEntity.rxExcess_eq_zero_iff.mp h.rxExcess
    exact ⟨heq, heq ▸ Int.natCast_nonneg _⟩

/-- Two SDUs in the wrong order. -/
def swappedOps : List AmOp := [.recvPdu (dataBuffer 1), .recvPdu (dataBuffer 0)]

theorem exists_losslessRun : ∃ e, LosslessRun exampleCfg swappedOps e ∧ e.rxSize = 0 := by
  have hrun : (swappedOps.foldlM (AmEntity.op 5) (.new exampleCfg)).map
      (fun e => (e.rxSize, e.bufferedSize)) = some (0, 0) := by
    decide +kernel
  obtain ⟨e, he, hstate⟩ := Option.map_eq_some_iff.mp hrun
  obtain ⟨hsize, hbuffered⟩ := Prod.mk.inj hstate
  have hnew : ReceiveRun exampleCfg [] (.new exampleCfg) := .start rfl
  have hrun : ReceiveRun exampleCfg swappedOps e := by
    refine hnew.append_foldlM ?_ he
    intro op hop e e' h
    simp only [List.mem_cons, List.not_mem_nil, or_false] at hop
    rcases hop with rfl | rfl <;> exact ⟨⟨_, rfl⟩, 5, h⟩
  refine ⟨e, (rxSize_eq_iff _ _ e hrun).mp ⟨?_, hsize.ge⟩, hsize⟩
  rw [hsize, hbuffered]
  rfl

/-- In every state of every run `rx_size` is the size of the buffered data, and not negative. -/
def ReceiveBufferAgrees : Prop :=
  ∀ cfg ops e, ReceiveRun cfg ops e → e.rxSize = e.bufferedSize ∧ 0 ≤ e.rxSize

/-- The SDU 1, a segment of it behind its last byte, and the SDU 0. -/
def trailingOps : List AmOp :=
  [.recvPdu (dataBuffer 1), .recvPdu [160, 1, 0, 1, 0], .recvPdu (dataBuffer 0)]

/-- Both SDUs have been delivered, and the byte of the segment stays counted. -/
theorem not_receiveBufferAgrees : ¬ ReceiveBufferAgrees := by
  intro hagrees
  have hrun : (trailingOps.foldlM (AmEntity.op 5) (.new exampleCfg)).map
      (fun e => (e.rxSize, e.bufferedSize)) = some (1, 0) := by
    decide +kernel
  obtain ⟨e, he, hstate⟩ := Option.map_eq_some_iff.mp hrun
  obtain ⟨hsize, hbuffered⟩ := Prod.mk.inj hstate
  have hnew : ReceiveRun exampleCfg [] (.new exampleCfg) := .start rfl
  have hrun : ReceiveRun exampleCfg trailingOps e := by
    refine hnew.append_foldlM ?_ he
    intro op hop e e' h
    simp only [List.mem_cons, List.not_mem_nil, or_false] at hop
    rcases hop with rfl | rfl | rfl <;> exact ⟨⟨_, rfl⟩, 5, h⟩
  have heq := (hagrees _ _ e hrun).1
  rw [hsize, hbuffered] at heq
  cases heq

end LlmHric.Rlc
