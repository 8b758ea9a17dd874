import LlmHric.Rlc.AmReceive

/-! An unacknowledged mode entity sends an SDU as it is when it fits, and else in segments that
carry a sequence number; only SDUs that are sent in segments have one. The receiving side keeps the
segments in a list, in the order of their sequence numbers relative to the reassembly window,
delivers an SDU when it is complete, and gives up on what falls behind the window or waits too long.
-/

namespace LlmHric.Rlc

/-- The two lengths of a sequence number of an unacknowledged mode entity. -/
inductive UmSnFieldLength
  | sn6
  | sn12
  deriving DecidableEq

def UmSnFieldLength.bits : UmSnFieldLength → ℕ
  | sn6 => 6
  | sn12 => 12

/-- The configuration of an entity. -/
structure UmConfig where
  snFieldLength : UmSnFieldLength
  tReassembly : ℕ
  rxMaxsize : ℕ
  txMaxsize : ℕ
  deriving DecidableEq

namespace UmConfig

/-- `sn_modulus` -/
def snModulus (cfg : UmConfig) : ℕ := 1 <<< cfg.snFieldLength.bits

/-- `window_size` -/
def windowSize (cfg : UmConfig) : ℕ := cfg.snModulus / 2

end UmConfig

/-- `nr_rlc_entity_um_t`. A timer that is 0 does not run. -/
structure UmEntity where
  cfg : UmConfig
  rxNextHighest : ℕ
  rxNextReassembly : ℕ
  rxTimerTrigger : ℕ
  txNext : ℕ
  tCurrent : ℕ
  tReassemblyStart : ℕ
  rxList : List Pdu
  rxSize : ℤ
  sdus : ℕ → Sdu
  sduCount : ℕ
  txList : List Segment
  txSize : ℤ
  bstatusTxSize : ℤ
  delivered : List (List UInt8)

namespace UmEntity

/-- The state of `new_nr_rlc_entity_um`. -/
def new (cfg : UmConfig) : UmEntity where
  cfg := cfg
  rxNextHighest := 0
  rxNextReassembly := 0
  rxTimerTrigger := 0
  txNext := 0
  tCurrent := 0
  tReassemblyStart := 0
  rxList := []
  rxSize := 0
  sdus := fun _ => ⟨none, 0, [], -1, 0, 0⟩
  sduCount := 0
  txList := []
  txSize := 0
  bstatusTxSize := 0
  delivered := []

/-- `compute_pdu_header_size` -/
def computePduHeaderSize (e : UmEntity) (s : Segment) : ℕ :=
  1 + (if ¬ (s.isFirst ∧ s.isLast) ∧ e.cfg.snFieldLength = .sn12 then 1 else 0) +
    if s.isFirst then 0 else 2

/-! ### Reception -/

/-- `modulus_rx`: the base is `window_size` before `rx_next_highest`. -/
def modulusRx (e : UmEntity) (a : ℕ) : ℕ :=
  (if a + e.cfg.windowSize < e.rxNextHighest then
    a + e.cfg.windowSize + e.cfg.snModulus - e.rxNextHighest
  else a + e.cfg.windowSize - e.rxNextHighest) % e.cfg.snModulus

/-- The sequence number after another one. -/
def nextSn (e : UmEntity) (sn : ℕ) : ℕ := (sn + 1) % e.cfg.snModulus

/-- The segments of a list from the first one with a sequence number on, as long as they have it. -/
def segmentsOf (sn : ℕ) (l : List Pdu) : List Pdu :=
  (l.dropWhile (·.sn != sn)).takeWhile (·.sn == sn)

/-- `sdu_delivered` -/
def sduDelivered (e : UmEntity) (sn : ℕ) : Bool := Rlc.sduDelivered (segmentsOf sn e.rxList)

/-- `sdu_full` -/
def sduFull (e : UmEntity) (sn : ℕ) : Bool := Rlc.sduFull (segmentsOf sn e.rxList)

/-- `sdu_has_missing_bytes` -/
def sduHasMissingBytes (e : UmEntity) (sn : ℕ) : Bool :=
  Rlc.sduHasMissingBytes (segmentsOf sn e.rxList)

/-- A segment whose data has been processed. -/
def processed (pdu : Pdu) : Pdu := { pdu with data := none, size := 0 }

/-- The list with the segments of a sequence number processed. -/
def processSegments (sn : ℕ) (l : List Pdu) : List Pdu :=
  l.takeWhile (·.sn != sn) ++ (segmentsOf sn l).map processed ++
    (l.dropWhile (·.sn != sn)).dropWhile (·.sn == sn)

/-- The sum of the sizes of some segments. -/
def pduSizes (l : List Pdu) : ℤ := (l.map fun pdu => (pdu.size : ℤ)).sum

/-- The upper layer gets an SDU. -/
def deliver (e : UmEntity) (sdu : List UInt8) : UmEntity :=
  { e with delivered := e.delivered ++ [sdu] }

/-- `reassemble_and_deliver` -/
def reassembleAndDeliver (e : UmEntity) (sn : ℕ) : UmEntity :=
  let e' := { e with
    rxList := processSegments sn e.rxList
    rxSize := e.rxSize - pduSizes (segmentsOf sn e.rxList) }
  match reassembleFrom [] false (segmentsOf sn e.rxList) with
  | (_, true) => e'
  | (sdu, false) => e'.deliver sdu

/-- The loops over `sdu_delivered`. They come round after `sn_modulus` rounds, and do not end when
every SDU is delivered. -/
def skipDelivered (e : UmEntity) : ℕ → ℕ → Option ℕ
  | 0, _ => none
  | fuel + 1, sn => if e.sduDelivered sn then e.skipDelivered fuel (e.nextSn sn) else some sn

/-- What is done when the SDU `x` is complete. -/
def completeSdu (e : UmEntity) (x : ℕ) : Option UmEntity :=
  let e := e.reassembleAndDeliver x
  if x = e.rxNextReassembly then
    (e.skipDelivered e.cfg.snModulus e.rxNextReassembly).map fun sn =>
      { e with rxNextReassembly := sn }
  else some e

/-- The segments that are not in the reassembly window are discarded. -/
def discardOutside (e : UmEntity) : UmEntity :=
  let outside : Pdu → Bool := fun pdu => e.modulusRx pdu.sn ≥ e.modulusRx e.rxNextHighest
  { e with
    rxList := e.rxList.dropWhile outside
    rxSize := e.rxSize - pduSizes (e.rxList.takeWhile outside) }

/-- `rx_next_reassembly` is moved into the reassembly window. -/
def updateNextReassembly (e : UmEntity) : Option UmEntity :=
  if e.modulusRx e.rxNextReassembly ≥ e.modulusRx e.rxNextHighest then
    (e.skipDelivered e.cfg.snModulus
      ((e.rxNextHighest + e.cfg.snModulus - e.cfg.windowSize) % e.cfg.snModulus)).map fun sn =>
      { e with rxNextReassembly := sn }
  else some e

/-- What is done when the SDU `x` is not complete: the window moves if `x` is ahead of it. -/
def moveWindow (e : UmEntity) (x : ℕ) : Option UmEntity :=
  if e.modulusRx x ≥ e.modulusRx e.rxNextHighest then
    ({ e with rxNextHighest := e.nextSn x }).discardOutside.updateNextReassembly
  else some e

/-- `t_reassembly` is stopped when its trigger has been passed. -/
def stopTReassembly (e : UmEntity) : UmEntity :=
  if e.tReassemblyStart ≠ 0 ∧
      (e.modulusRx e.rxTimerTrigger ≤ e.modulusRx e.rxNextReassembly ∨
        e.modulusRx e.rxTimerTrigger > e.modulusRx e.rxNextHighest ∨
        (e.rxNextHighest = e.nextSn e.rxNextReassembly ∧
          e.sduHasMissingBytes e.rxNextReassembly = false)) then
    { e with tReassemblyStart := 0 }
  else e

/-- `t_reassembly` is started, and waits for what is before `rx_next_highest`. -/
def startTimer (e : UmEntity) : UmEntity :=
  { e with tReassemblyStart := e.tCurrent, rxTimerTrigger := e.rxNextHighest }

/-- `t_reassembly` is started when something is missing before `rx_next_highest`. -/
def startTReassembly (e : UmEntity) : UmEntity :=
  if e.tReassemblyStart = 0 ∧
      (e.modulusRx e.rxNextHighest > e.modulusRx (e.nextSn e.rxNextReassembly) ∨
        (e.rxNextHighest = e.nextSn e.rxNextReassembly ∧
          e.sduHasMissingBytes e.rxNextReassembly = true)) then
    e.startTimer
  else e

/-- `reception_actions` -/
def receptionActions (e : UmEntity) (x : ℕ) : Option UmEntity :=
  (if e.sduFull x then e.completeSdu x else e.moveWindow x).map fun e =>
    e.stopTReassembly.startTReassembly

/-- `nr_rlc_pdu_list_add` -/
def pduListAdd (e : UmEntity) (pdu : Pdu) : List Pdu → List Pdu
  | [] => [pdu]
  | cur :: l =>
    if e.modulusRx cur.sn > e.modulusRx pdu.sn ∨ (cur.sn = pdu.sn ∧ cur.so > pdu.so) then
      pdu :: cur :: l
    else cur :: e.pduListAdd pdu l

/-- What a PDU carries. -/
inductive UmPdu
  | whole (sdu : List UInt8)
  | segment (pdu : Pdu)
  deriving DecidableEq

/-- The segment in a PDU, after the first two bits. -/
def parseSegment (cfg : UmConfig) (isFirst isLast : Bool) (d : Decoder) : Option Pdu := do
  let (_, d) ← d.getBits (if cfg.snFieldLength = .sn12 then 2 else 0)
  let (sn, d) ← d.getBits cfg.snFieldLength.bits
  let (so, d) ← (if isFirst then some (0, d) else d.getBits 16)
  if !isFirst && so == 0 then none
  else if d.buffer.length ≤ d.byte then none
  else some (newPdu sn so isFirst isLast (d.buffer.drop d.byte))

/-- The header of a PDU, and its data, unless the PDU is malformed. -/
def parsePdu (cfg : UmConfig) (buffer : List UInt8) : Option UmPdu := do
  let (si, d) ← (Decoder.init buffer).getBits 2
  let isFirst := si / 2 % 2 == 0
  let isLast := si % 2 == 0
  if isFirst && isLast then
    if buffer.length < 2 then none else some (.whole (buffer.drop 1))
  else (parseSegment cfg isFirst isLast d).map .segment

/-- A segment is accepted if there is room for it, and it is not before `rx_next_reassembly`. -/
def accepts (e : UmEntity) (pdu : Pdu) : Bool :=
  !decide (e.rxSize + pdu.size > e.cfg.rxMaxsize) &&
    !decide (e.modulusRx pdu.sn < e.modulusRx e.rxNextReassembly)

/-- A segment is put into the list. -/
def addPdu (e : UmEntity) (pdu : Pdu) : UmEntity :=
  { e with rxSize := e.rxSize + pdu.size, rxList := e.pduListAdd pdu e.rxList }

/-- `nr_rlc_entity_um_recv_pdu` -/
def recvPdu (e : UmEntity) (buffer : List UInt8) : Option UmEntity :=
  match parsePdu e.cfg buffer with
  | none => some e
  | some (.whole sdu) => some (e.deliver sdu)
  | some (.segment pdu) =>
    if e.accepts pdu then (e.addPdu pdu).receptionActions pdu.sn else some e

/-! ### Transmission -/

/-- The entity with another header for an SDU. -/
def setSdu (e : UmEntity) (i : ℕ) (sdu : Sdu) : UmEntity :=
  { e with sdus := Function.update e.sdus i sdu }

/-- `serialize_sdu` -/
def serializeSdu (e : UmEntity) (s : Segment) (bufsize : ℕ) : Option (List UInt8) := do
  let c ← (Encoder.init bufsize).putBits (if s.isFirst then 0 else 1) 1
  let c ← c.putBits (if s.isLast then 0 else 1) 1
  let c ← (if s.isFirst && s.isLast then c.putBits 0 6
    else do
      let c ← c.putBits 0 (if e.cfg.snFieldLength = .sn12 then 2 else 0)
      c.putBits ((e.sdus s.sdu).sn.getD 0) e.cfg.snFieldLength.bits)
  let c ← (if s.isFirst then some c else c.putBits s.so 16)
  return toBytes c.bits ++ ((e.sdus s.sdu).data.drop s.so).take s.size

/-- `resegment`: the part of a segment that fits and the rest, or nothing if not even a byte of data
fits behind the header of a segment. The SDU counts the new segment in both cases. -/
def resegment (e : UmEntity) (s : Segment) (pduSize : ℕ) : Option (Segment × Segment) × UmEntity :=
  let sdu := e.sdus s.sdu
  let e := e.setSdu s.sdu { sdu with refCount := sdu.refCount + 1 }
  let headerSize := e.computePduHeaderSize { s with isLast := false }
  if headerSize + 1 > pduSize then (none, e)
  else
    let overSize := headerSize + s.size - pduSize
    (some ({ s with size := s.size - overSize, isLast := false },
      { s with size := overSize, so := s.so + (s.size - overSize), isFirst := false }), e)

/-- The first segment of the list is taken out, and its SDU gets the next sequence number. -/
def takeHead (e : UmEntity) (s : Segment) (rest : List Segment) : UmEntity :=
  { e.setSdu s.sdu { e.sdus s.sdu with sn := some e.txNext } with
    txList := rest
    bstatusTxSize := e.bstatusTxSize - (e.computePduHeaderSize s + s.size) }

/-- The part that did not fit is put back at the head of the list. -/
def putBack (e : UmEntity) (next : Segment) : UmEntity :=
  { e with
    txList := next :: e.txList
    bstatusTxSize := e.bstatusTxSize + (e.computePduHeaderSize next + next.size) }

/-- The last segment of an SDU that was sent in segments uses the sequence number up. -/
def advanceTxNext (e : UmEntity) (s : Segment) : UmEntity :=
  if !s.isFirst && s.isLast then { e with txNext := e.nextSn e.txNext } else e

/-- A segment is sent and freed. -/
def sendSegment (e : UmEntity) (s : Segment) (size : ℕ) : Option (List UInt8 × UmEntity) :=
  let e := e.advanceTxNext s
  (e.serializeSdu s size).map fun pdu =>
    let sdu := e.sdus s.sdu
    (pdu, { e.setSdu s.sdu { sdu with freeCount := sdu.freeCount + 1 } with
      txSize := e.txSize - s.size })

/-- `generate_tx_pdu` -/
def generatePdu (e : UmEntity) (size : ℕ) : Option (List UInt8 × UmEntity) :=
  match e.txList with
  | [] => some ([], e)
  | s :: rest =>
    if e.computePduHeaderSize s + 1 > size then some ([], e)
    else
      let e := e.takeHead s rest
      if e.computePduHeaderSize s + s.size > size then
        match e.resegment s size with
        -- the segment is in no list any more
        | (none, e) => some ([], e)
        | (some (s, next), e) => (e.putBack next).sendSegment s size
      else e.sendSegment s size

/-- `nr_rlc_entity_um_recv_sdu`; an SDU that finds no room is rejected. -/
def recvSdu (e : UmEntity) (buffer : List UInt8) (sduId : ℕ) : Option UmEntity :=
  if buffer.length > nrSduMax then none
  else if e.txSize + buffer.length > e.cfg.txMaxsize then some e
  else
    let s : Segment := ⟨e.sduCount, buffer.length, 0, true, true⟩
    some { e.setSdu e.sduCount ⟨none, sduId, buffer, -1, 1, 0⟩ with
      sduCount := e.sduCount + 1
      txSize := e.txSize + buffer.length
      txList := e.txList ++ [s]
      bstatusTxSize := e.bstatusTxSize + (e.computePduHeaderSize s + s.size) }

/-! ### Timer, discarding and re-establishment -/

/-- `t_reassembly` runs and has expired. -/
def tReassemblyExpired (e : UmEntity) : Bool :=
  e.tReassemblyStart ≠ 0 ∧ e.tCurrent > e.tReassemblyStart + e.cfg.tReassembly

/-- A segment is before `rx_next_reassembly`. -/
def isStale (e : UmEntity) (pdu : Pdu) : Bool :=
  e.modulusRx pdu.sn < e.modulusRx e.rxNextReassembly

/-- The segments before `rx_next_reassembly` are discarded. -/
def discardStale (e : UmEntity) : UmEntity := { e with rxList := e.rxList.dropWhile e.isStale }

/-- The end of `check_t_reassembly`; here `rx_next_reassembly` + 1 does not wrap around. -/
def restartTReassembly (e : UmEntity) : UmEntity :=
  if e.modulusRx e.rxNextHighest > e.modulusRx (e.nextSn e.rxNextReassembly) ∨
      (e.rxNextHighest = e.rxNextReassembly + 1 ∧
        e.sduHasMissingBytes e.rxNextReassembly = true) then
    e.startTimer
  else e

/-- `check_t_reassembly` -/
def checkTReassembly (e : UmEntity) : Option UmEntity :=
  if e.tReassemblyExpired = false then some e
  else
    (e.skipDelivered e.cfg.snModulus e.rxTimerTrigger).map fun sn =>
      ({ e with tReassemblyStart := 0, rxNextReassembly := sn }).discardStale.restartTReassembly

/-- `nr_rlc_entity_um_set_time` -/
def setTime (e : UmEntity) (now : ℕ) : Option UmEntity :=
  { e with tCurrent := now }.checkTReassembly

/-- `nr_rlc_entity_um_discard_sdu`: an SDU that has not been sent in part is taken from the list. -/
def discardSdu (e : UmEntity) (sduId : ℕ) : UmEntity :=
  match e.txList.find? fun s => (e.sdus s.sdu).upperLayerId == sduId with
  | none => e
  | some s =>
    if s.isFirst && s.isLast then
      let sdu := e.sdus s.sdu
      { e.setSdu s.sdu { sdu with freeCount := sdu.freeCount + 1 } with
        txList := e.txList.eraseP fun s => (e.sdus s.sdu).upperLayerId == sduId
        bstatusTxSize := e.bstatusTxSize - (e.computePduHeaderSize s + s.size) }
    else e

/-- `nr_rlc_entity_um_reestablishment` -/
def reestablishment (e : UmEntity) : UmEntity :=
  { UmEntity.new e.cfg with sdus := e.sdus, sduCount := e.sduCount, delivered := e.delivered }

end UmEntity

/-- An operation of the user of an entity. -/
inductive UmOp
  | recvSdu (buffer : List UInt8) (sduId : ℕ)
  | generatePdu (size : ℕ)
  | recvPdu (buffer : List UInt8)
  | setTime (now : ℕ)
  | discardSdu (sduId : ℕ)
  | reestablishment

namespace UmEntity

/-- An operation. -/
def op (e : UmEntity) : UmOp → Option UmEntity
  | .recvSdu buffer sduId => e.recvSdu buffer sduId
  | .generatePdu size => (e.generatePdu size).map (·.2)
  | .recvPdu buffer => e.recvPdu buffer
  | .setTime now => e.setTime now
  | .discardSdu sduId => some (e.discardSdu sduId)
  | .reestablishment => some e.reestablishment

/-- The state after some operations. -/
def run (e : UmEntity) (ops : List UmOp) : Option UmEntity := ops.foldlM op e

end UmEntity

end LlmHric.Rlc
