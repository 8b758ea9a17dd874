import LlmHric.Rlc.AmEntity
import Mathlib.Tactic.SplitIfs

/-! A data PDU that is not discarded is put into the slot of its sequence number. When the SDU is
complete it is delivered, its segments lose their data and stay as a mark until the window moves
past them. The variables of the window are then updated (38.322 5.2.3.2.3).

Two loops go over delivered SDUs until they meet one that is not; they run on a number of rounds
here and give `none` when they need more. -/

namespace LlmHric.Rlc

/-- `segment_already_received` -/
def segmentAlreadyReceived (so size : ℤ) : List Pdu → Bool
  | [] => size ≤ 0
  | l :: rest =>
    if size ≤ 0 then true
    else if l.so ≤ so ∧ so < l.so + l.size then
      segmentAlreadyReceived (so + (l.size - (so - l.so))) (size - (l.size - (so - l.so))) rest
    else if l.so ≤ so + size - 1 ∧ so + size - 1 < l.so + l.size then
      segmentAlreadyReceived so (size - (size - (l.so - so))) rest
    else segmentAlreadyReceived so size rest

/-- The loop of `sdu_full`. -/
def fullFrom (lastByte : ℤ) : List Pdu → Bool
  | [] => false
  | l :: rest =>
    if l.so > lastByte + 1 then false
    else if l.isLast then true
    else fullFrom (if l.so + l.size - 1 > lastByte then l.so + l.size - 1 else lastByte) rest

/-- The loop of `sdu_has_missing_bytes`. -/
def missingFrom (lastByte : ℤ) : List Pdu → Bool
  | [] => false
  | l :: rest =>
    if l.so > lastByte + 1 then true
    else missingFrom (if l.so + l.size - 1 > lastByte then l.so + l.size - 1 else lastByte) rest

/-- `sdu_delivered`: the data of the first segment is gone. -/
def sduDelivered : List Pdu → Bool
  | [] => false
  | l :: _ => l.data.isNone

/-- `sdu_full` -/
def sduFull (l : List Pdu) : Bool := !sduDelivered l && fullFrom (-1) l

/-- `sdu_has_missing_bytes` -/
def sduHasMissingBytes (l : List Pdu) : Bool := !sduDelivered l && missingFrom (-1) l

/-- The loop of `reassemble_and_deliver`: the bytes of the SDU so far, and whether it is bad. -/
def reassembleFrom (sdu : List UInt8) (badSdu : Bool) : List Pdu → List UInt8 × Bool
  | [] => (sdu, badSdu)
  | pdu :: rest =>
    let len : ℤ := pdu.size - (sdu.length - pdu.so)
    let bad := badSdu || pdu.so > sdu.length || sdu.length + len > nrSduMax
    if !bad && len > 0 then
      reassembleFrom
        (sdu ++ ((pdu.data.getD []).drop (sdu.length - pdu.so)).take len.toNat) bad rest
    else reassembleFrom sdu bad rest

/-- A segment whose data has been processed. -/
def Pdu.processed (pdu : Pdu) : Pdu := { pdu with data := none }

namespace AmEntity

/-- `reassemble_and_deliver` -/
def reassembleAndDeliver (e : AmEntity) (sn : ℕ) : AmEntity :=
  let l := e.rx.getPduFromSn sn
  let e' := { e with
    rx := e.rx.setPduFromSn sn (l.map Pdu.processed)
    rxSize := e.rxSize - (l.map fun pdu => (pdu.size : ℤ)).sum }
  match reassembleFrom [] false l with
  | (_, true) => e'
  | (sdu, false) => e'.call (.deliverSdu sdu)

/-! ### Reception -/

/-- The loop over `sdu_delivered` in `reception_actions` and `check_t_reassembly`. -/
def skipDelivered (e : AmEntity) : ℕ → ℕ → Option ℕ
  | 0, _ => none
  | fuel + 1, sn =>
    if sduDelivered (e.rx.getPduFromSn sn) then e.skipDelivered fuel (e.nextSn sn) else some sn

/-- The loop that frees the delivered SDUs at the head of the window: the sequence number it stops
at and the number of slots it cleared. -/
def freeDelivered (snModulus : ℕ) : ℕ → RxManager → ℕ → ℕ → Option (RxManager × ℕ × ℕ)
  | 0, _, _, _ => none
  | fuel + 1, rx, rxNext, count =>
    if sduDelivered (rx.getPduFromSn rxNext) then
      freeDelivered snModulus fuel (rx.clearPdu rxNext) ((rxNext + 1) % snModulus) (count + 1)
    else some (rx, rxNext, count)

/-- The update of `rx_highest_status` when the SDU `x` is complete. -/
def updateHighestStatus (fuel : ℕ) (e : AmEntity) (x : ℕ) : Option AmEntity :=
  if x = e.rxHighestStatus then
    (e.skipDelivered fuel e.rxHighestStatus).map fun sn => { e with rxHighestStatus := sn }
  else some e

/-- The update of `rx_next` when the SDU `x` is complete. -/
def updateRxNext (fuel : ℕ) (e : AmEntity) (x : ℕ) : Option AmEntity :=
  if x = e.rxNext then
    (freeDelivered e.cfg.snModulus fuel e.rx e.rxNext 0).map fun (rx, rxNext, count) =>
      { e with rxNext, rx := (rx.advance count).setStart rxNext }
  else some e

/-- `t_reassembly` is stopped when its trigger has been passed. -/
def stopTReassembly (e : AmEntity) : AmEntity :=
  if e.tReassemblyStart ≠ 0 ∧
      (e.rxNextStatusTrigger = e.rxNext ∨
        (e.rxNextStatusTrigger = e.nextSn e.rxNext ∧
          sduHasMissingBytes (e.rx.getPduFromSn e.rxNext) = false) ∨
        (e.snInRecvWindow e.rxNextStatusTrigger = false ∧
          e.rxNextStatusTrigger ≠ (e.rxNext + e.cfg.windowSize) % e.cfg.snModulus)) then
    { e with tReassemblyStart := 0 }
  else e

/-- `t_reassembly` is started when something is missing before the highest sequence number. -/
def startTReassembly (e : AmEntity) (sn : ℕ) : AmEntity :=
  if e.modulusRx e.rxNextHighest > e.modulusRx (e.nextSn sn) ∨
      (e.rxNextHighest = e.nextSn sn ∧ sduHasMissingBytes (e.rx.getPduFromSn sn) = true) then
    { e with tReassemblyStart := e.tCurrent, rxNextStatusTrigger := e.rxNextHighest }
  else e

/-- The update of `rx_next_highest`. -/
def updateNextHighest (e : AmEntity) (x : ℕ) : AmEntity :=
  if e.modulusRx x ≥ e.modulusRx e.rxNextHighest then { e with rxNextHighest := e.nextSn x } else e

/-- What is done when the SDU `x` is complete. -/
def completeSdu (fuel : ℕ) (e : AmEntity) (x : ℕ) : Option AmEntity :=
  ((e.reassembleAndDeliver x).updateHighestStatus fuel x).bind fun e' => e'.updateRxNext fuel x

/-- The update of `t_reassembly`. -/
def updateTReassembly (e : AmEntity) : AmEntity :=
  let e' := e.stopTReassembly
  if e'.tReassemblyStart = 0 then e'.startTReassembly e'.rxNext else e'

/-- `reception_actions` -/
def receptionActions (fuel : ℕ) (e : AmEntity) (x : ℕ) : Option AmEntity :=
  let e' := e.updateNextHighest x
  (if sduFull (e'.rx.getPduFromSn x) then e'.completeSdu fuel x else some e').map updateTReassembly

/-- `check_t_reassembly` -/
def checkTReassembly (fuel : ℕ) (e : AmEntity) : Option AmEntity :=
  if e.tReassemblyStart = 0 ∨ e.tCurrent ≤ e.tReassemblyStart + e.cfg.tReassembly then some e
  else
    (e.skipDelivered fuel e.rxNextStatusTrigger).map fun sn =>
      let e' := { e with tReassemblyStart := 0, rxHighestStatus := sn, statusTriggered := true }
      e'.startTReassembly sn

/-- The header of a data PDU after its first bit, and its data: the poll bit, and the segment
unless the PDU is malformed. -/
def parseDataPdu (cfg : AmConfig) (d : Decoder) : Bool × Option Pdu :=
  match d.getBits 1 with
  -- a field that cannot be read is -1
  | none => (true, none)
  | some (p, d) =>
    let pdu? : Option Pdu := do
      let (si, d) ← d.getBits 2
      let (_, d) ← d.getBits (if cfg.snFieldLength = .sn18 then 2 else 0)
      let (sn, d) ← d.getBits cfg.snFieldLength.bits
      let isFirst := si / 2 % 2 == 0
      let isLast := si % 2 == 0
      let (so, d) ← if isFirst then some (0, d) else d.getBits 16
      if !isFirst && so == 0 then none
      else if d.buffer.length ≤ d.byte then none
      else some (newPdu sn so isFirst isLast (d.buffer.drop d.byte))
    (p == 1, pdu?)

/-- A segment is accepted if there is room for it, its sequence number is in the window, and it has
not been received before. -/
def accepts (e : AmEntity) (pdu : Pdu) : Bool :=
  !decide (e.rxSize + pdu.size > e.cfg.rxMaxsize) && e.snInRecvWindow pdu.sn &&
    !segmentAlreadyReceived pdu.so pdu.size (e.rx.getPduFromSn pdu.sn)

/-- A poll triggers a status report, whether the PDU is discarded or not. -/
def poll (e : AmEntity) (p : Bool) : AmEntity :=
  if p then { e with statusTriggered := true } else e

/-- A segment is put into its slot. -/
def addPdu (e : AmEntity) (pdu : Pdu) : AmEntity :=
  { e with rxSize := e.rxSize + pdu.size, rx := e.rx.addPdu pdu }

/-- `nr_rlc_entity_am_recv_pdu` for a data PDU, after its first bit. -/
def recvDataPdu (fuel : ℕ) (e : AmEntity) (d : Decoder) : Option AmEntity :=
  match parseDataPdu e.cfg d with
  | (p, none) => some (e.poll p)
  | (p, some pdu) =>
    if e.accepts pdu then ((e.addPdu pdu).receptionActions fuel pdu.sn).map (·.poll p)
    else some (e.poll p)

/-! ### The transmitting side -/

/-- The transmitting side of an entity. -/
structure TxSide where
  cfg : AmConfig
  txNext : ℕ
  txNextAck : ℕ
  pollSn : ℕ
  pduWithoutPoll : ℕ
  byteWithoutPoll : ℕ
  forcePoll : Bool
  tCurrent : ℕ
  tPollRetransmitStart : ℕ
  sdus : ℕ → Sdu
  sduCount : ℕ
  txList : List Segment
  txSize : ℤ
  waitList : List Segment
  waitEnd : Option ℕ
  retransmitList : List Segment
  bstatusTxSize : ℤ
  bstatusRetxSize : ℤ

/-- The transmitting side. -/
def txSide (e : AmEntity) : TxSide :=
  ⟨e.cfg, e.txNext, e.txNextAck, e.pollSn, e.pduWithoutPoll, e.byteWithoutPoll, e.forcePoll,
    e.tCurrent, e.tPollRetransmitStart, e.sdus, e.sduCount, e.txList, e.txSize, e.waitList,
    e.waitEnd, e.retransmitList, e.bstatusTxSize, e.bstatusRetxSize⟩

section TxSide

variable {e e' : AmEntity} {fuel x sn : ℕ}

@[simp] theorem txSide_updateNextHighest : (e.updateNextHighest x).txSide = e.txSide := by
  rw [updateNextHighest]
  split_ifs <;> rfl

@[simp] theorem txSide_reassembleAndDeliver : (e.reassembleAndDeliver x).txSide = e.txSide := by
  rw [reassembleAndDeliver]
  split <;> rfl

theorem txSide_updateHighestStatus (h : e.updateHighestStatus fuel x = some e') :
    e'.txSide = e.txSide := by
  rw [updateHighestStatus] at h
  split_ifs at h
  · obtain ⟨sn, -, rfl⟩ := Option.map_eq_some_iff.mp h
    rfl
  · cases h
    rfl

theorem txSide_updateRxNext (h : e.updateRxNext fuel x = some e') : e'.txSide = e.txSide := by
  rw [updateRxNext] at h
  split_ifs at h
  · obtain ⟨r, -, rfl⟩ := Option.map_eq_some_iff.mp h
    rfl
  · cases h
    rfl

@[simp] theorem txSide_stopTReassembly : e.stopTReassembly.txSide = e.txSide := by
  rw [stopTReassembly]
  split_ifs <;> rfl

@[simp] theorem txSide_startTReassembly : (e.startTReassembly sn).txSide = e.txSide := by
  rw [startTReassembly]
  split_ifs <;> rfl

@[simp] theorem txSide_updateTReassembly : e.updateTReassembly.txSide = e.txSide := by
  rw [updateTReassembly]
  split_ifs <;> simp

@[simp] theorem txSide_poll (p : Bool) : (e.poll p).txSide = e.txSide := by
  rw [poll]
  split_ifs <;> rfl

theorem txSide_receptionActions (h : e.receptionActions fuel x = some e') :
    e'.txSide = e.txSide := by
  obtain ⟨e₁, he₁, rfl⟩ := Option.map_eq_some_iff.mp h
  rw [txSide_updateTReassembly]
  split_ifs at he₁
  · obtain ⟨e₂, he₂, he₃⟩ := Option.bind_eq_some_iff.mp he₁
    rw [txSide_updateRxNext he₃, txSide_updateHighestStatus he₂, txSide_reassembleAndDeliver,
      txSide_updateNextHighest]
  · cases he₁
    exact txSide_updateNextHighest

/-- The reception of data leaves the transmitting side alone. -/
theorem txSide_recvDataPdu {d : Decoder} (h : e.recvDataPdu fuel d = some e') :
    e'.txSide = e.txSide := by
  rw [recvDataPdu] at h
  split at h
  · cases h
    exact txSide_poll _
  · split_ifs at h
    · obtain ⟨e₁, he₁, rfl⟩ := Option.map_eq_some_iff.mp h
      rw [txSide_poll, txSide_receptionActions he₁]
      rfl
    · cases h
      exact txSide_poll _

theorem txSide_checkTReassembly (h : e.checkTReassembly fuel = some e') :
    e'.txSide = e.txSide := by
  rw [checkTReassembly] at h
  split_ifs at h
  · cases h
    rfl
  · obtain ⟨sn, -, rfl⟩ := Option.map_eq_some_iff.mp h
    exact txSide_startTReassembly

end TxSide

end AmEntity

end LlmHric.Rlc
