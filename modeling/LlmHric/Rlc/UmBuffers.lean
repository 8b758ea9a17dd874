import LlmHric.Rlc.UmEntity
import Mathlib.Algebra.BigOperators.Group.List.Basic
import Mathlib.Algebra.Ring.Nat
import Mathlib.Algebra.Order.BigOperators.Group.List
import Mathlib.Algebra.Order.Group.Unbundled.Int
import Mathlib.Data.List.Infix

/-! Three counters follow what is in the lists: `rx_size` the received segments, `tx_size` the
segments to be sent, and the buffer status the PDUs they will make. The buffer status is always
right. The other two are not lowered in three places: when `t_reassembly` gives up on segments, when
an SDU is discarded, and when the grant has room for a byte of an SDU but not for a byte of a
segment, which has a longer header. -/

namespace LlmHric.Rlc

namespace UmEntity

variable {e e' : UmEntity} {x sn : ℕ}

def segmentSizes (l : List Segment) : ℤ := (l.map fun s => (s.size : ℤ)).sum

/-- The sizes of the PDUs of the segments to be sent. -/
def queuedPduSize (e : UmEntity) : ℤ :=
  (e.txList.map fun s => ((e.computePduHeaderSize s + s.size : ℕ) : ℤ)).sum

/-- The counters are what is in the lists. -/
structure SizesAgree (e : UmEntity) : Prop where
  rxSize : e.rxSize = pduSizes e.rxList
  txSize : e.txSize = segmentSizes e.txList
  bstatusTxSize : e.bstatusTxSize = e.queuedPduSize

/-- How far `rx_size` is above the sizes in the list. -/
def rxExcess (e : UmEntity) : ℤ := e.rxSize - pduSizes e.rxList

/-- How far `tx_size` is above the sizes in the list. -/
def txExcess (e : UmEntity) : ℤ := e.txSize - segmentSizes e.txList

theorem pduSizes_append (l l' : List Pdu) : pduSizes (l ++ l') = pduSizes l + pduSizes l' := by
  rw [pduSizes, List.map_append, List.sum_append]
  rfl

theorem pduSizes_cons (pdu : Pdu) (l : List Pdu) : pduSizes (pdu :: l) = pdu.size + pduSizes l := by
  rw [pduSizes, List.map_cons, List.sum_cons]
  rfl

theorem pduSizes_nonneg (l : List Pdu) : 0 ≤ pduSizes l := by
  induction l with
  | nil => exact le_rfl
  | cons pdu l ih =>
    rw [pduSizes_cons]
    omega

theorem pduSizes_eq_zero_iff (l : List Pdu) : pduSizes l = 0 ↔ ∀ pdu ∈ l, pdu.size = 0 := by
  induction l with
  | nil => simp [pduSizes]
  | cons pdu l ih =>
    have hpos := pduSizes_nonneg l
    rw [pduSizes_cons, List.forall_mem_cons, ← ih]
    omega

/-! ### Reception -/

/-- What reception changes nothing about. -/
def txCore (e : UmEntity) : UmConfig × List Segment × ℤ × ℤ :=
  (e.cfg, e.txList, e.txSize, e.bstatusTxSize)

theorem pduSizes_processSegments (sn : ℕ) (l : List Pdu) :
    pduSizes (processSegments sn l) = pduSizes l - pduSizes (segmentsOf sn l) := by
  have hzero : ∀ l' : List Pdu, pduSizes (l'.map processed) = 0 := by
    intro l'
    rw [pduSizes_eq_zero_iff]
    intro pdu hpdu
    obtain ⟨pdu', -, rfl⟩ := List.mem_map.mp hpdu
    rfl
  have hsplit : pduSizes l = pduSizes (l.takeWhile (·.sn != sn)) + (pduSizes (segmentsOf sn l) +
      pduSizes ((l.dropWhile (·.sn != sn)).dropWhile (·.sn == sn))) := by
    rw [← pduSizes_append, segmentsOf, List.takeWhile_append_dropWhile, ← pduSizes_append,
      List.takeWhile_append_dropWhile]
  rw [processSegments, pduSizes_append, pduSizes_append, hzero, hsplit]
  omega

theorem rxExcess_reassembleAndDeliver (sn : ℕ) :
    (e.reassembleAndDeliver sn).rxExcess = e.rxExcess := by
  have hexcess : ∀ delivered, rxExcess { e with
      rxList := processSegments sn e.rxList
      rxSize := e.rxSize - pduSizes (segmentsOf sn e.rxList)
      delivered } = e.rxExcess := by
    intro delivered
    change e.rxSize - pduSizes (segmentsOf sn e.rxList) - pduSizes (processSegments sn e.rxList) =
      e.rxSize - pduSizes e.rxList
    rw [pduSizes_processSegments]
    omega
  rw [reassembleAndDeliver]
  split <;> exact hexcess _

theorem txCore_reassembleAndDeliver (sn : ℕ) : (e.reassembleAndDeliver sn).txCore = e.txCore := by
  rw [reassembleAndDeliver]
  split <;> rfl

theorem excess_completeSdu (h : e.completeSdu x = some e') :
    e'.rxExcess = e.rxExcess ∧ e'.txCore = e.txCore := by
  have hexcess := rxExcess_reassembleAndDeliver (e := e) x
  have hcore := txCore_reassembleAndDeliver (e := e) x
  rw [completeSdu] at h
  split_ifs at h
  · obtain ⟨sn, -, rfl⟩ := Option.map_eq_some_iff.mp h
    exact ⟨hexcess, hcore⟩
  · cases h
    exact ⟨hexcess, hcore⟩

theorem rxExcess_discardOutside (e : UmEntity) : e.discardOutside.rxExcess = e.rxExcess := by
  set outside : Pdu → Bool := fun pdu => e.modulusRx pdu.sn ≥ e.modulusRx e.rxNextHighest
  have hsplit := pduSizes_append (e.rxList.takeWhile outside) (e.rxList.dropWhile outside)
  rw [List.takeWhile_append_dropWhile] at hsplit
  change e.rxSize - pduSizes (e.rxList.takeWhile outside) -
    pduSizes (e.rxList.dropWhile outside) = e.rxSize - pduSizes e.rxList
  omega

theorem excess_moveWindow (h : e.moveWindow x = some e') :
    e'.rxExcess = e.rxExcess ∧ e'.txCore = e.txCore := by
  rw [moveWindow] at h
  split_ifs at h
  · have hexcess := rxExcess_discardOutside { e with rxNextHighest := e.nextSn x }
    rw [updateNextReassembly] at h
    split_ifs at h
    · obtain ⟨sn, -, rfl⟩ := Option.map_eq_some_iff.mp h
      exact ⟨hexcess, rfl⟩
    · cases h
      exact ⟨hexcess, rfl⟩
  · cases h
    exact ⟨rfl, rfl⟩

theorem excess_receptionActions (h : e.receptionActions x = some e') :
    e'.rxExcess = e.rxExcess ∧ e'.txCore = e.txCore := by
  obtain ⟨e₁, he₁, rfl⟩ := Option.map_eq_some_iff.mp h
  have hactions : e₁.rxExcess = e.rxExcess ∧ e₁.txCore = e.txCore := by
    split_ifs at he₁
    · exact excess_completeSdu he₁
    · exact excess_moveWindow he₁
  rw [← hactions.1, ← hactions.2, startTReassembly, stopTReassembly]
  split_ifs <;> exact ⟨rfl, rfl⟩

theorem pduSizes_pduListAdd (pdu : Pdu) (l : List Pdu) :
    pduSizes (e.pduListAdd pdu l) = pdu.size + pduSizes l := by
  induction l with
  | nil => rw [pduListAdd, pduSizes_cons]
  | cons cur l ih =>
    rw [pduListAdd]
    split_ifs
    · exact pduSizes_cons pdu _
    · rw [pduSizes_cons, ih, pduSizes_cons]
      omega

theorem excess_recvPdu {buffer : List UInt8} (h : e.recvPdu buffer = some e') :
    e'.rxExcess = e.rxExcess ∧ e'.txCore = e.txCore := by
  rw [recvPdu] at h
  split at h
  · cases h
    exact ⟨rfl, rfl⟩
  · cases h
    exact ⟨rfl, rfl⟩
  · next pdu _ =>
    split_ifs at h
    · obtain ⟨hexcess, hcore⟩ := excess_receptionActions h
      refine ⟨hexcess.trans ?_, hcore⟩
      change e.rxSize + pdu.size - pduSizes (e.pduListAdd pdu e.rxList) =
        e.rxSize - pduSizes e.rxList
      rw [pduSizes_pduListAdd]
      omega
    · cases h
      exact ⟨rfl, rfl⟩

/-- The segments that `t_reassembly` gives up on when it expires at some time. -/
def staleAt (e : UmEntity) (now : ℕ) : List Pdu :=
  let e := { e with tCurrent := now }
  if e.tReassemblyExpired = false then []
  else
    match e.skipDelivered e.cfg.snModulus e.rxTimerTrigger with
    | none => []
    | some sn => e.rxList.takeWhile { e with rxNextReassembly := sn }.isStale

theorem excess_setTime {now : ℕ} (h : e.setTime now = some e') :
    e'.rxExcess = e.rxExcess + pduSizes (e.staleAt now) ∧ e'.txCore = e.txCore := by
  rw [setTime, checkTReassembly] at h
  rw [staleAt]
  split_ifs at h ⊢ with hexpired
  · cases h
    exact ⟨(Int.add_zero _).symm, rfl⟩
  · obtain ⟨sn, hsn, rfl⟩ := Option.map_eq_some_iff.mp h
    rw [hsn]
    set stale : Pdu → Bool := isStale { e with
      tCurrent := now, tReassemblyStart := 0, rxNextReassembly := sn }
    have hsplit := pduSizes_append (e.rxList.takeWhile stale) (e.rxList.dropWhile stale)
    rw [List.takeWhile_append_dropWhile] at hsplit
    have hexcess : e.rxSize - pduSizes (e.rxList.dropWhile stale) =
        e.rxSize - pduSizes e.rxList + pduSizes (e.rxList.takeWhile stale) := by omega
    rw [restartTReassembly]
    split_ifs <;> exact ⟨hexcess, rfl⟩

/-! ### Transmission -/

theorem segmentSizes_cons (s : Segment) (l : List Segment) :
    segmentSizes (s :: l) = s.size + segmentSizes l := by
  rw [segmentSizes, List.map_cons, List.sum_cons]
  rfl

theorem segmentSizes_append (l l' : List Segment) :
    segmentSizes (l ++ l') = segmentSizes l + segmentSizes l' := by
  rw [segmentSizes, List.map_append, List.sum_append]
  rfl

def pduSizesOf (cfg : UmConfig) (l : List Segment) : ℤ :=
  (l.map fun s => (((new cfg).computePduHeaderSize s + s.size : ℕ) : ℤ)).sum

theorem queuedPduSize_eq (e : UmEntity) : e.queuedPduSize = pduSizesOf e.cfg e.txList := rfl

theorem pduSizesOf_cons (cfg : UmConfig) (s : Segment) (l : List Segment) :
    pduSizesOf cfg (s :: l) =
      (((new cfg).computePduHeaderSize s + s.size : ℕ) : ℤ) + pduSizesOf cfg l := by
  rw [pduSizesOf, List.map_cons, List.sum_cons]
  rfl

theorem pduSizesOf_append (cfg : UmConfig) (l l' : List Segment) :
    pduSizesOf cfg (l ++ l') = pduSizesOf cfg l + pduSizesOf cfg l' := by
  rw [pduSizesOf, List.map_append, List.sum_append]
  rfl

/-- How far the buffer status is above the sizes of the PDUs. -/
def bstatusExcess (e : UmEntity) : ℤ := e.bstatusTxSize - e.queuedPduSize

/-- The counters of an entity with some transmit list. -/
theorem excess_of_txCore {cfg : UmConfig} {l : List Segment} {txSize bstatusTxSize : ℤ}
    (h : e.txCore = (cfg, l, txSize, bstatusTxSize)) :
    e.txExcess = txSize - segmentSizes l ∧
      e.bstatusExcess = bstatusTxSize - pduSizesOf cfg l := by
  simp only [txCore, Prod.mk.injEq] at h
  obtain ⟨rfl, rfl, rfl, rfl⟩ := h
  exact ⟨rfl, rfl⟩

/-- The grant has room for a byte of the first SDU of the list, and not for a byte of a segment. -/
def LosesHead (e : UmEntity) (size : ℕ) : Prop :=
  ∃ s ∈ e.txList.head?, e.computePduHeaderSize s + 1 ≤ size ∧
    size < e.computePduHeaderSize s + s.size ∧
    size < e.computePduHeaderSize { s with isLast := false } + 1

theorem txCore_sendSegment {s : Segment} {size : ℕ} {pdu : List UInt8}
    (h : e.sendSegment s size = some (pdu, e')) :
    e'.txCore = (e.cfg, e.txList, e.txSize - s.size, e.bstatusTxSize) ∧
      e'.rxExcess = e.rxExcess := by
  obtain ⟨pdu', -, heq⟩ := Option.map_eq_some_iff.mp h
  obtain ⟨rfl, rfl⟩ := Prod.mk.inj heq
  rw [advanceTxNext]
  split_ifs <;> exact ⟨rfl, rfl⟩

/-- Without room for a byte of a segment nothing comes out of the segmentation. -/
theorem resegment_eq_none {s : Segment} {size : ℕ} (h : e.resegment s size = (none, e')) :
    size < e.computePduHeaderSize { s with isLast := false } + 1 ∧ e'.txCore = e.txCore ∧
      e'.rxExcess = e.rxExcess := by
  rw [resegment] at h
  split_ifs at h with hroom
  · obtain ⟨-, rfl⟩ := Prod.mk.inj h
    exact ⟨hroom, rfl, rfl⟩
  · cases (Prod.mk.inj h).1

/-- The two parts of a segment. -/
theorem resegment_eq_some {s s' next : Segment} {size : ℕ}
    (h : e.resegment s size = (some (s', next), e')) :
    e.computePduHeaderSize { s with isLast := false } + 1 ≤ size ∧
      s' = { s with
        size := s.size - (e.computePduHeaderSize { s with isLast := false } + s.size - size)
        isLast := false } ∧
      next = { s with
        size := e.computePduHeaderSize { s with isLast := false } + s.size - size
        so := s.so + s'.size
        isFirst := false } ∧ e'.txCore = e.txCore ∧ e'.rxExcess = e.rxExcess := by
  rw [resegment] at h
  split_ifs at h with hroom
  · cases (Prod.mk.inj h).1
  · obtain ⟨hparts, rfl⟩ := Prod.mk.inj h
    obtain ⟨rfl, rfl⟩ := Prod.mk.inj (Option.some.inj hparts)
    exact ⟨Nat.not_lt.mp hroom, rfl, rfl, rfl, rfl⟩

/-- The header of a segment is not shorter than the one of the whole SDU. -/
theorem computePduHeaderSize_le (e : UmEntity) (s : Segment) :
    e.computePduHeaderSize s ≤ e.computePduHeaderSize { s with isLast := false } := by
  rw [computePduHeaderSize, computePduHeaderSize]
  split_ifs <;> simp_all

/-- What `generate_tx_pdu` does with the first segment of the list: nothing, loses it, sends it, or
sends the part of it that fits. -/
inductive Generated (e : UmEntity) (size : ℕ) (s : Segment) (rest : List Segment)
    (e' : UmEntity) : Prop
  | idle : size < e.computePduHeaderSize s + 1 → e' = e → Generated e size s rest e'
  | lost : e.computePduHeaderSize s + 1 ≤ size → size < e.computePduHeaderSize s + s.size →
      size < e.computePduHeaderSize { s with isLast := false } + 1 →
      e'.txCore = (e.cfg, rest, e.txSize,
        e.bstatusTxSize - (e.computePduHeaderSize s + s.size)) → Generated e size s rest e'
  | sent : e.computePduHeaderSize s + s.size ≤ size →
      e'.txCore = (e.cfg, rest, e.txSize - s.size,
        e.bstatusTxSize - (e.computePduHeaderSize s + s.size)) → Generated e size s rest e'
  | split (s' next : Segment) : size < e.computePduHeaderSize s + s.size →
      e.computePduHeaderSize { s with isLast := false } + 1 ≤ size →
      s'.size + next.size = s.size →
      e'.txCore = (e.cfg, next :: rest, e.txSize - s'.size,
        e.bstatusTxSize - (e.computePduHeaderSize s + s.size) +
          (e.computePduHeaderSize next + next.size)) → Generated e size s rest e'

theorem generatePdu_cases {size : ℕ} {pdu : List UInt8} {s : Segment} {rest : List Segment}
    (hlist : e.txList = s :: rest) (h : e.generatePdu size = some (pdu, e')) :
    e'.rxExcess = e.rxExcess ∧ Generated e size s rest e' := by
  rw [generatePdu, hlist] at h
  by_cases hroom : e.computePduHeaderSize s + 1 > size
  · simp only [if_pos hroom] at h
    cases h
    exact ⟨rfl, .idle hroom rfl⟩
  · simp only [if_neg hroom] at h
    by_cases hsplit : (e.takeHead s rest).computePduHeaderSize s + s.size > size
    · rw [if_pos hsplit] at h
      rcases hparts : (e.takeHead s rest).resegment s size with ⟨_ | ⟨s', next⟩, e₁⟩
      · rw [hparts] at h
        cases h
        obtain ⟨hsegment, hcore, hexcess⟩ := resegment_eq_none hparts
        exact ⟨hexcess, .lost (Nat.not_lt.mp hroom) hsplit hsegment hcore⟩
      · rw [hparts] at h
        obtain ⟨hcore, hexcess⟩ := txCore_sendSegment h
        obtain ⟨hsegment, hs', hnext, hcore', hexcess'⟩ := resegment_eq_some hparts
        have hle := e.computePduHeaderSize_le s
        have hsegment' : e.computePduHeaderSize { s with isLast := false } + 1 ≤ size := hsegment
        have hsplit' : size < e.computePduHeaderSize s + s.size := hsplit
        refine ⟨hexcess.trans hexcess', .split s' next hsplit' hsegment' ?_ ?_⟩
        · rw [hs', hnext]
          change s.size - (e.computePduHeaderSize { s with isLast := false } + s.size - size) +
            (e.computePduHeaderSize { s with isLast := false } + s.size - size) = s.size
          omega
        · simp only [txCore, Prod.mk.injEq] at hcore'
          obtain ⟨hcfg, hrest, htx, hbstatus⟩ := hcore'
          have hheader : e₁.computePduHeaderSize next = e.computePduHeaderSize next := by
            rw [computePduHeaderSize, computePduHeaderSize, hcfg]
            rfl
          rw [hcore]
          change (e₁.cfg, next :: e₁.txList, e₁.txSize - (s'.size : ℤ),
            e₁.bstatusTxSize + (e₁.computePduHeaderSize next + next.size)) = _
          rw [hheader, hcfg, hrest, htx, hbstatus]
          rfl
    · rw [if_neg hsplit] at h
      obtain ⟨hcore, hexcess⟩ := txCore_sendSegment h
      exact ⟨hexcess, .sent (Nat.not_lt.mp hsplit) hcore⟩

theorem excess_generatePdu {size : ℕ} {pdu : List UInt8}
    (h : e.generatePdu size = some (pdu, e')) :
    e'.rxExcess = e.rxExcess ∧ e'.bstatusExcess = e.bstatusExcess ∧
      e.txExcess ≤ e'.txExcess ∧ (e'.txExcess = e.txExcess ↔ ¬ e.LosesHead size) := by
  cases hlist : e.txList with
  | nil =>
    rw [generatePdu, hlist] at h
    cases h
    refine ⟨rfl, rfl, le_rfl, iff_of_true rfl ?_⟩
    rintro ⟨s, hs, -⟩
    rw [hlist] at hs
    cases hs
  | cons s rest =>
    obtain ⟨hexcess, hgen⟩ := generatePdu_cases hlist h
    refine ⟨hexcess, ?_⟩
    have hold : e.txExcess = e.txSize - (s.size + segmentSizes rest) := by
      rw [txExcess, hlist, segmentSizes_cons]
    have hold' : e.bstatusExcess = e.bstatusTxSize -
        (((e.computePduHeaderSize s + s.size : ℕ) : ℤ) + pduSizesOf e.cfg rest) := by
      rw [bstatusExcess, queuedPduSize_eq, hlist, pduSizesOf_cons]
      rfl
    have hloses : e.LosesHead size ↔ e.computePduHeaderSize s + 1 ≤ size ∧
        size < e.computePduHeaderSize s + s.size ∧
        size < e.computePduHeaderSize { s with isLast := false } + 1 := by
      rw [LosesHead, hlist]
      simp
    rw [hold, hold', hloses]
    cases hgen with
    | idle hroom heq =>
      rw [heq, hold, hold']
      exact ⟨rfl, le_rfl, iff_of_true rfl fun hnot => by omega⟩
    | lost hroom hsize hsegment hcore =>
      obtain ⟨htx, hbstatus⟩ := excess_of_txCore hcore
      rw [htx, hbstatus]
      omega
    | sent hsize hcore =>
      obtain ⟨htx, hbstatus⟩ := excess_of_txCore hcore
      rw [htx, hbstatus]
      omega
    | split s' next hsize hsegment hparts hcore =>
      obtain ⟨htx, hbstatus⟩ := excess_of_txCore hcore
      rw [htx, hbstatus, segmentSizes_cons, pduSizesOf_cons]
      have hheader : (new e.cfg).computePduHeaderSize next = e.computePduHeaderSize next := rfl
      omega

/-- The counters of an entity with the sizes of its transmit list. -/
theorem excess_eq (e : UmEntity) : e.txExcess = e.txSize - segmentSizes e.txList ∧
    e.bstatusExcess = e.bstatusTxSize - pduSizesOf e.cfg e.txList :=
  ⟨rfl, rfl⟩

theorem excess_recvSdu {buffer : List UInt8} {sduId : ℕ} (h : e.recvSdu buffer sduId = some e') :
    e'.rxExcess = e.rxExcess ∧ e'.bstatusExcess = e.bstatusExcess ∧ e'.txExcess = e.txExcess := by
  rw [recvSdu] at h
  split_ifs at h
  · cases h
    exact ⟨rfl, rfl, rfl⟩
  · set s : Segment := ⟨e.sduCount, buffer.length, 0, true, true⟩
    have hcore : e'.txCore = (e.cfg, e.txList ++ [s], e.txSize + buffer.length,
        e.bstatusTxSize + (e.computePduHeaderSize s + s.size)) := by
      cases h
      rfl
    obtain ⟨htx, hbstatus⟩ := excess_of_txCore hcore
    obtain ⟨htx', hbstatus'⟩ := e.excess_eq
    have hheader : (new e.cfg).computePduHeaderSize s = e.computePduHeaderSize s := rfl
    have hsize : s.size = buffer.length := rfl
    have hsegment : segmentSizes [s] = s.size := by simp [segmentSizes]
    have hpdu : pduSizesOf e.cfg [s] = ((e.computePduHeaderSize s + s.size : ℕ) : ℤ) := by
      simp [pduSizesOf, hheader]
    refine ⟨?_, ?_, ?_⟩
    · cases h
      rfl
    · rw [hbstatus, hbstatus', pduSizesOf_append, hpdu]
      omega
    · rw [htx, htx', segmentSizes_append, hsegment]
      omega

/-- A sum over a list without the segment that is found in it. -/
theorem sum_map_eraseP {p : Segment → Bool} {s : Segment} {l : List Segment} (f : Segment → ℤ)
    (h : l.find? p = some s) : (l.map f).sum = f s + ((l.eraseP p).map f).sum := by
  rw [((perm_cons_eraseP h).map f).sum_eq, List.map_cons, List.sum_cons]

/-- A whole SDU with data is discarded. -/
def LosesSdu (e : UmEntity) (sduId : ℕ) : Prop :=
  ∃ s, (e.txList.find? fun s => (e.sdus s.sdu).upperLayerId == sduId) = some s ∧
    s.isFirst = true ∧ s.isLast = true ∧ 0 < s.size

theorem excess_discardSdu (e : UmEntity) (sduId : ℕ) :
    (e.discardSdu sduId).rxExcess = e.rxExcess ∧
      (e.discardSdu sduId).bstatusExcess = e.bstatusExcess ∧
      e.txExcess ≤ (e.discardSdu sduId).txExcess ∧
      ((e.discardSdu sduId).txExcess = e.txExcess ↔ ¬ e.LosesSdu sduId) := by
  rw [LosesSdu, discardSdu]
  split
  · next hnone =>
    rw [hnone]
    exact ⟨rfl, rfl, le_rfl, iff_of_true rfl (by simp)⟩
  · next s hsome =>
    rw [hsome]
    split_ifs with hwhole
    · obtain ⟨htx, hbstatus⟩ := e.excess_eq
      have hsizes : segmentSizes e.txList = s.size + _ := sum_map_eraseP _ hsome
      have hpdus : pduSizesOf e.cfg e.txList = ((e.computePduHeaderSize s + s.size : ℕ) : ℤ) + _ :=
        sum_map_eraseP _ hsome
      obtain ⟨hfirst, hlast⟩ := Bool.and_eq_true_iff.mp hwhole
      set e' : UmEntity := { e.setSdu s.sdu
          { e.sdus s.sdu with freeCount := (e.sdus s.sdu).freeCount + 1 } with
        txList := e.txList.eraseP fun s => (e.sdus s.sdu).upperLayerId == sduId
        bstatusTxSize := e.bstatusTxSize - (e.computePduHeaderSize s + s.size) }
      have hcore : e'.txCore = (e.cfg, e.txList.eraseP fun s =>
          (e.sdus s.sdu).upperLayerId == sduId, e.txSize,
          e.bstatusTxSize - (e.computePduHeaderSize s + s.size)) := rfl
      obtain ⟨htx', hbstatus'⟩ := excess_of_txCore hcore
      have htxDiff : e'.txExcess = e.txExcess + s.size := by
        rw [htx', htx, hsizes, segmentSizes]
        omega
      refine ⟨rfl, ?_, by omega, ?_⟩
      · rw [hbstatus', hbstatus, hpdus, pduSizesOf]
        omega
      · constructor
        · rintro heq ⟨s', hs', -, -, hpos⟩
          obtain rfl := Option.some.inj hs'
          omega
        · intro hnot
          have hzero : ¬ 0 < s.size := fun hpos => hnot ⟨s, rfl, hfirst, hlast, hpos⟩
          omega
    · refine ⟨rfl, rfl, le_rfl, iff_of_true rfl ?_⟩
      rintro ⟨s', hs', hfirst, hlast, -⟩
      obtain rfl := Option.some.inj hs'
      exact hwhole (by rw [hfirst, hlast]; rfl)

/-- An operation takes something out of a list, and the counter stays. -/
def LosesSize (e : UmEntity) : UmOp → Prop
  | .generatePdu size => e.LosesHead size
  | .setTime now => ∃ pdu ∈ e.staleAt now, pdu.size ≠ 0
  | .discardSdu sduId => e.LosesSdu sduId
  | _ => False

theorem sizesAgree_iff_excess : e.SizesAgree ↔
    e.rxExcess = 0 ∧ e.txExcess = 0 ∧ e.bstatusExcess = 0 := by
  rw [rxExcess, txExcess, bstatusExcess, Int.sub_eq_zero, Int.sub_eq_zero, Int.sub_eq_zero]
  constructor
  · rintro ⟨hrx, htx, hbstatus⟩
    exact ⟨hrx, htx, hbstatus⟩
  · rintro ⟨hrx, htx, hbstatus⟩
    exact ⟨hrx, htx, hbstatus⟩

/-- Counters that are right stay right unless the operation loses size. -/
theorem SizesAgree.op_iff {op : UmOp} (h : e.SizesAgree) (he : e.op op = some e') :
    e'.SizesAgree ↔ ¬ e.LosesSize op := by
  rw [sizesAgree_iff_excess] at h ⊢
  obtain ⟨hrx, htx, hbstatus⟩ := h
  cases op with
  | recvSdu buffer sduId =>
    obtain ⟨hrx', hbstatus', htx'⟩ := excess_recvSdu he
    exact iff_of_true ⟨hrx'.trans hrx, htx'.trans htx, hbstatus'.trans hbstatus⟩ id
  | generatePdu size =>
    obtain ⟨⟨pdu, e₁⟩, hpdu, rfl⟩ := Option.map_eq_some_iff.mp he
    obtain ⟨hrx', hbstatus', -, hiff⟩ := excess_generatePdu hpdu
    rw [hrx', hbstatus', and_iff_right hrx, and_iff_left hbstatus, ← htx]
    exact hiff
  | recvPdu buffer =>
    obtain ⟨hrx', hcore⟩ := excess_recvPdu he
    obtain ⟨htx', hbstatus'⟩ := excess_of_txCore hcore
    exact iff_of_true ⟨hrx'.trans hrx, htx'.trans htx, hbstatus'.trans hbstatus⟩ id
  | setTime now =>
    obtain ⟨hrx', hcore⟩ := excess_setTime he
    obtain ⟨htx', hbstatus'⟩ := excess_of_txCore hcore
    have hstale : pduSizes (e.staleAt now) = 0 ↔ ¬ e.LosesSize (.setTime now) := by
      rw [pduSizes_eq_zero_iff, LosesSize]
      push Not
      rfl
    rw [hrx', hrx, Int.zero_add, hstale]
    exact and_iff_left ⟨htx'.trans htx, hbstatus'.trans hbstatus⟩
  | discardSdu sduId =>
    obtain rfl := Option.some.inj he
    obtain ⟨hrx', hbstatus', -, hiff⟩ := e.excess_discardSdu sduId
    rw [hrx', hbstatus', and_iff_right hrx, and_iff_left hbstatus, ← htx]
    exact hiff
  | reestablishment =>
    obtain rfl := Option.some.inj he
    exact iff_of_true ⟨rfl, rfl, rfl⟩ id

end UmEntity

/-- In every state of every run the counters are what is in the lists. -/
def UmSizesAgree : Prop :=
  ∀ cfg ops e, (UmEntity.new cfg).run ops = some e → e.SizesAgree

theorem UmEntity.run_append_singleton (e : UmEntity) (ops : List UmOp) (op : UmOp) :
    e.run (ops ++ [op]) = (e.run ops).bind fun e => e.op op := by
  rw [run, List.foldlM_append]
  refine congrArg _ (funext fun e => ?_)
  exact bind_pure (e.op op)

/-- The counters are right in all states of a run exactly when no operation of the run loses size.
-/
theorem sizesAgree_iff (cfg : UmConfig) (ops : List UmOp) :
    (∀ pre e, pre <+: ops → (UmEntity.new cfg).run pre = some e → e.SizesAgree) ↔
      ∀ pre op e e', pre ++ [op] <+: ops → (UmEntity.new cfg).run pre = some e →
        e.op op = some e' → ¬ e.LosesSize op := by
  constructor
  · intro hagrees pre op e e' hpre hrun hop
    have hstep : (UmEntity.new cfg).run (pre ++ [op]) = some e' := by
      rw [UmEntity.run_append_singleton, hrun]
      exact hop
    have hbefore := hagrees pre e ((List.prefix_append _ _).trans hpre) hrun
    exact (hbefore.op_iff hop).mp (hagrees _ e' hpre hstep)
  · intro hclean pre e hpre hrun
    -- from the last operation of the beginning to the one before it
    induction pre using List.reverseRecOn generalizing e with
    | nil =>
      obtain rfl := Option.some.inj hrun
      exact ⟨rfl, rfl, rfl⟩
    | append_singleton pre op ih =>
      rw [UmEntity.run_append_singleton] at hrun
      obtain ⟨e₁, he₁, hop⟩ := Option.bind_eq_some_iff.mp hrun
      have hbefore := ih e₁ ((List.prefix_append _ _).trans hpre) he₁
      exact (hbefore.op_iff hop).mpr (hclean pre op e₁ e hpre he₁ hop)

/-- A configuration with 12 bit sequence numbers. -/
def umExampleCfg : UmConfig := ⟨.sn12, 35, 100000, 100000⟩

/-- An SDU is discarded before it is sent, and its byte stays counted. -/
theorem not_umSizesAgree : ¬ UmSizesAgree := by
  intro hagrees
  have hrun : ((UmEntity.new umExampleCfg).run [.recvSdu [0] 0, .discardSdu 0]).map
      (fun e => (e.txSize, e.txList)) = some (1, []) := by
    decide +kernel
  obtain ⟨e, he, hstate⟩ := Option.map_eq_some_iff.mp hrun
  obtain ⟨hsize, hlist⟩ := Prod.mk.inj hstate
  have heq := (hagrees _ _ e he).txSize
  rw [hsize, hlist] at heq
  cases heq

end LlmHric.Rlc
