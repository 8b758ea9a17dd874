import LlmHric.Pdcp.CountInference
import Mathlib.Algebra.BigOperators.Group.List.Basic
import Mathlib.Algebra.Ring.Nat
import Mathlib.Data.List.Infix

/-! `rx_size` is raised by the size of a PDU without its header, and lowered by the size of the
stored SDU, which has no MAC-I. So it gains the size of the MAC-I with every SDU that was protected,
until the list is freed as a whole. -/

namespace LlmHric.Pdcp

namespace PdcpEntity

variable {e : PdcpEntity} {f : SecurityFunctions}

/-- The sizes of the SDUs in the list. -/
def storedSize (e : PdcpEntity) : ℕ := (e.rxList.map (·.buffer.length)).sum

/-- How far `rx_size` is above the sizes of the SDUs in the list. -/
def excess (e : PdcpEntity) : ℤ := e.rxSize - e.storedSize

theorem excess_deliverHead {cur : PdcpSdu} {next : List PdcpSdu} (h : e.rxList = cur :: next) :
    (e.deliverHead cur next).excess = e.excess := by
  have hstored : e.storedSize = cur.buffer.length + (e.deliverHead cur next).storedSize := by
    rw [storedSize, h, List.map_cons, List.sum_cons]
    rfl
  change e.rxSize - cur.buffer.length - (e.deliverHead cur next).storedSize = e.rxSize -
    e.storedSize
  omega

theorem excess_deliverConsecutive {l : List PdcpSdu} (count : UInt32) (h : e.rxList = l) :
    (deliverConsecutive count l e).2.excess = e.excess := by
  induction l generalizing count e with
  | nil => rfl
  | cons cur next ih =>
    rw [deliverConsecutive]
    split_ifs
    · exact (ih (count + 1) rfl).trans (excess_deliverHead h)
    · rfl

theorem excess_deliverBefore {l : List PdcpSdu} (count : UInt32) (h : e.rxList = l) :
    (deliverBefore count l e).excess = e.excess := by
  induction l generalizing e with
  | nil => rfl
  | cons cur next ih =>
    rw [deliverBefore]
    split_ifs
    · exact (ih rfl).trans (excess_deliverHead h)
    · rfl

theorem excess_deliverAllSdus {l : List PdcpSdu} (h : e.rxList = l) :
    (deliverAllSdus l e).excess = e.excess := by
  induction l generalizing e with
  | nil => rfl
  | cons cur next ih => exact (ih rfl).trans (excess_deliverHead h)

theorem excess_deliverFrom (e : PdcpEntity) (count : UInt32) :
    (e.deliverFrom count).excess = e.excess :=
  excess_deliverConsecutive count rfl

theorem excess_stopTReordering (e : PdcpEntity) : e.stopTReordering.excess = e.excess := by
  rw [stopTReordering]
  split_ifs <;> rfl

theorem excess_startTReordering (e : PdcpEntity) : e.startTReordering.excess = e.excess := by
  rw [startTReordering]
  split_ifs <;> rfl

theorem excess_checkTReordering (e : PdcpEntity) : e.checkTReordering.excess = e.excess := by
  rw [checkTReordering]
  split
  · rfl
  · split_ifs
    · rfl
    · rw [excess_startTReordering, excess_deliverFrom, excess_deliverBefore _ rfl]
      rfl

theorem excess_flush (e : PdcpEntity) : e.flush.excess = e.excess := by
  rw [flush]
  split_ifs
  · exact excess_deliverAllSdus rfl
  · rfl

theorem length_setDataBit (buffer : List UInt8) :
    (e.setDataBit buffer).length = buffer.length := by
  cases buffer with
  | nil => rfl
  | cons b rest =>
    rw [setDataBit]
    split_ifs <;> rfl

theorem length_decipher (buffer : List UInt8) (count : UInt32) :
    (e.decipher f buffer count).length = buffer.length := by
  rw [decipher]
  split
  · rfl
  · rw [List.length_append, f.length_cipher, List.length_take, List.length_drop]
    omega

/-- The parts of a PDU that is not discarded. -/
theorem length_receivedSdu {buffer : List UInt8} {sdu : PdcpSdu}
    (h : e.receivedSdu f buffer = some sdu) :
    e.cfg.snSize.headerSize + sdu.buffer.length + e.integritySize = buffer.length := by
  rw [receivedSdu] at h
  split_ifs at h with _ _ hsize
  rw [checkedSdu] at h
  split_ifs at h
  cases h
  rw [clearSize] at hsize
  rw [List.length_take, List.length_drop, length_decipher, length_setDataBit]
  omega

theorem storedSize_listAdd (sdu : PdcpSdu) (l : List PdcpSdu) :
    ((listAdd sdu l).map (·.buffer.length)).sum =
      sdu.buffer.length + (l.map (·.buffer.length)).sum := by
  induction l with
  | nil => rfl
  | cons cur rest ih =>
    rw [listAdd]
    split_ifs
    · rfl
    · rw [List.map_cons, List.sum_cons, ih, List.map_cons, List.sum_cons]
      omega

/-- An SDU that is stored is counted with its MAC-I. -/
theorem excess_acceptSdu {buffer : List UInt8} {sdu : PdcpSdu}
    (h : e.receivedSdu f buffer = some sdu) :
    (e.acceptSdu sdu buffer.length).excess = e.excess + e.integritySize := by
  have hstore : (e.storeSdu sdu buffer.length).excess = e.excess + e.integritySize := by
    have hlen := length_receivedSdu h
    rw [excess, excess, storedSize, storedSize, storeSdu, storedSize_listAdd]
    push_cast
    omega
  rw [acceptSdu, excess_startTReordering, excess_stopTReordering, ← hstore]
  split_ifs
  · exact excess_deliverFrom _ _
  · rfl

/-! ### Operations -/

/-- An operation stores an SDU that came with a MAC-I. -/
def StoresMac (f : SecurityFunctions) (e : PdcpEntity) : PdcpOp → Prop
  | .recvPdu buffer => e.integritySize ≠ 0 ∧ (e.receivedSdu f buffer).isSome
  | _ => False

/-- An operation frees the list as a whole. -/
def FreesList (e : PdcpEntity) : PdcpOp → Prop
  | .reestablish _ => e.cfg.entityType = .srb
  | _ => False

theorem excess_recvPdu (buffer : List UInt8) :
    (e.recvPdu f buffer).excess =
      e.excess + if (e.receivedSdu f buffer).isSome then (e.integritySize : ℤ) else 0 := by
  rw [recvPdu]
  cases h : e.receivedSdu f buffer with
  | none => simp
  | some sdu => simpa using excess_acceptSdu h

/-- An operation that does not free the list adds the size of the MAC-I it stores. -/
theorem excess_op (op : PdcpOp) (hfrees : ¬ e.FreesList op) :
    (e.op f op).excess = e.excess ∧ ¬ e.StoresMac f op ∨
      (e.op f op).excess = e.excess + e.integritySize ∧ e.StoresMac f op := by
  cases op with
  | recvPdu buffer =>
    have hrecv : (e.recvPdu f buffer).excess = _ := excess_recvPdu buffer
    by_cases hmac : e.StoresMac f (.recvPdu buffer)
    · rw [if_pos hmac.2] at hrecv
      exact .inr ⟨hrecv, hmac⟩
    · refine .inl ⟨hrecv.trans ?_, hmac⟩
      split_ifs with hsome
      · have hzero : e.integritySize = 0 := by
          by_contra hne
          exact hmac ⟨hne, hsome⟩
        rw [hzero]
        exact Int.add_zero _
      · exact Int.add_zero _
  | processSdu buffer =>
    refine .inl ⟨?_, id⟩
    change (e.processSdu f buffer).2.excess = e.excess
    rw [processSdu]
    split_ifs <;> rfl
  | setTime now => exact .inl ⟨excess_checkTReordering _, id⟩
  | setSecurity parameters => exact .inl ⟨rfl, id⟩
  | suspend => exact .inl ⟨excess_flush _, id⟩
  | reestablish parameters =>
    refine .inl ⟨?_, id⟩
    change (e.reestablish parameters).excess = e.excess
    rw [reestablish]
    split
    · rfl
    · exact excess_flush _
    · next hsrb => exact absurd hsrb hfrees
  | release => exact .inl ⟨excess_deliverAllSdus rfl, id⟩
  | setCountDl hfn sn snSize => exact .inl ⟨rfl, id⟩
  | setCountUl hfn sn snSize => exact .inl ⟨rfl, id⟩

theorem excess_of_freesList {op : PdcpOp} (h : e.FreesList op) : (e.op f op).excess = 0 := by
  cases op with
  | reestablish parameters =>
    change (e.reestablish parameters).excess = 0
    have hsrb : e.cfg.entityType = .srb := h
    rw [reestablish, hsrb]
    rfl
  | _ => exact h.elim

theorem excess_eq_zero_iff : e.excess = 0 ↔ e.rxSize = e.storedSize := Int.sub_eq_zero

theorem run_append (e : PdcpEntity) (ops ops' : List PdcpOp) :
    e.run f (ops ++ ops') = (e.run f ops).run f ops' :=
  List.foldl_append

theorem excess_new (cfg : PdcpConfig) (parameters : SecurityParameters) :
    (new cfg parameters).excess = 0 := rfl

/-- Without stored MAC-Is the excess stays 0. -/
theorem excess_op_eq_zero {op : PdcpOp} (h : e.excess = 0) (hmac : ¬ e.StoresMac f op) :
    (e.op f op).excess = 0 := by
  by_cases hfrees : e.FreesList op
  · exact excess_of_freesList hfrees
  · rcases excess_op (f := f) op hfrees with ⟨heq, -⟩ | ⟨-, hstores⟩
    · exact heq.trans h
    · exact absurd hstores hmac

/-- A stored MAC-I ends that. -/
theorem excess_op_ne_zero {op : PdcpOp} (h : e.excess = 0) (hmac : e.StoresMac f op) :
    (e.op f op).excess ≠ 0 := by
  cases op with
  | recvPdu buffer =>
    rcases excess_op (f := f) (e := e) (.recvPdu buffer) id with ⟨-, hnot⟩ | ⟨heq, -⟩
    · exact absurd hmac hnot
    · have hne : e.integritySize ≠ 0 := hmac.1
      omega
  | _ => exact hmac.elim

end PdcpEntity

/-- In every state of every run, `rx_size` is the size of what is in the list. -/
def RxSizeAgrees : Prop :=
  ∀ f cfg parameters ops,
    ((PdcpEntity.new cfg parameters).run f ops).rxSize =
      ((PdcpEntity.new cfg parameters).run f ops).storedSize

/-- A signalling radio bearer. -/
def srbConfig : PdcpConfig := ⟨.srb, true, 1, false, false, .shortSn, some 100⟩

end LlmHric.Pdcp
