import LlmHric.Rlc.AmStatus

/-! A segment that is sent moves to the wait list. A status PDU of the peer frees the segments it
acknowledges and moves the ones it reports as missing to the retransmit list; so does the timer
`t_poll_retransmit` for the first SDU of the wait list, when no status PDU answers a poll.

The source walks the wait and the retransmit list with a pointer into each. Here a list that is
being walked is split at the pointer. -/

namespace LlmHric.Rlc

namespace AmEntity

/-! ### Lists of segments -/

/-- A segment comes before another one: by `sn`, and by `so` in the same SDU. -/
def goesBefore (e : AmEntity) (s cur : Segment) : Bool :=
  e.modulusTx (e.snOf cur) > e.modulusTx (e.snOf s) ||
    (e.snOf cur == e.snOf s && decide (cur.so > s.so))

/-- How many segments `nr_rlc_tx_sdu_segment_list_add` passes. -/
def listAddPos (e : AmEntity) (s : Segment) : List Segment → ℕ
  | [] => 0
  | cur :: l => if e.goesBefore s cur then 0 else e.listAddPos s l + 1

/-- `nr_rlc_tx_sdu_segment_list_add` -/
def listAdd (e : AmEntity) (s : Segment) (l : List Segment) : List Segment :=
  l.take (e.listAddPos s l) ++ s :: l.drop (e.listAddPos s l)

/-- `nr_rlc_sdu_segment_list_append` on the wait list, which writes behind `wait_end`. -/
def appendWait (e : AmEntity) (s : Segment) : Option AmEntity :=
  match e.waitList, e.waitEnd with
  | [], _ => some { e with waitList := [s], waitEnd := some 0 }
  | _ :: _, none => none
  | _ :: _, some i =>
    some { e with waitList := e.waitList.take (i + 1) ++ [s], waitEnd := some (i + 1) }

/-- `nr_rlc_tx_sdu_segment_list_add` on the wait list; `wait_end` keeps pointing to its segment. -/
def addWait (e : AmEntity) (s : Segment) : AmEntity :=
  let waitList := e.listAdd s e.waitList
  { e with
    waitList
    waitEnd := if waitList.length = 1 then some 0
      else e.waitEnd.map fun i => if e.listAddPos s e.waitList ≤ i then i + 1 else i }

/-- A segment is put into the wait list, at its end if it comes after the last one. -/
def putInWaitList (e : AmEntity) (s : Segment) : Option AmEntity :=
  match e.waitEnd.bind fun i => e.waitList[i]? with
  | none => e.appendWait s
  | some last =>
    if e.modulusTx (e.snOf s) > e.modulusTx (e.snOf last) ∨
        (e.modulusTx (e.snOf s) = e.modulusTx (e.snOf last) ∧ s.so > last.so) then
      e.appendWait s
    else some (e.addWait s)

/-- The entity with another header for an SDU. -/
def setSdu (e : AmEntity) (i : ℕ) (sdu : Sdu) : AmEntity :=
  { e with sdus := Function.update e.sdus i sdu }

/-- `resegment`: the part of a segment that fits, and the rest. -/
def resegment (e : AmEntity) (s : Segment) (pduSize : ℕ) : Segment × Segment × AmEntity :=
  let sdu := e.sdus s.sdu
  let overSize := e.computePduHeaderSize s + s.size - pduSize
  ({ s with size := s.size - overSize, isLast := false },
    { s with size := overSize, so := s.so + (s.size - overSize), isFirst := false },
    e.setSdu s.sdu { sdu with refCount := sdu.refCount + 1 })

/-- `is_window_stalling` -/
def isWindowStalling (e : AmEntity) : Bool :=
  !(decide (e.modulusTx e.txNextAck ≤ e.modulusTx e.txNext) &&
    decide (e.modulusTx e.txNext <
      e.modulusTx ((e.txNextAck + e.cfg.windowSize) % e.cfg.snModulus)))

/-- `check_poll_after_pdu_assembly` -/
def checkPollAfterPduAssembly (e : AmEntity) : Bool :=
  (e.txList.isEmpty && e.retransmitList.isEmpty) || e.isWindowStalling

/-- `include_poll`, without the bit it sets. -/
def includePoll (e : AmEntity) : AmEntity :=
  { e with
    pduWithoutPoll := 0
    byteWithoutPoll := 0
    pollSn := e.prevSn e.txNext
    tPollRetransmitStart := e.tCurrent }

/-- A poll that is forced is made once. -/
def takeForcePoll (e : AmEntity) (p : Bool) : Bool × AmEntity :=
  if e.forcePoll then (true, { e with forcePoll := false }) else (p, e)

/-- `serialize_sdu` -/
def serializeSdu (e : AmEntity) (s : Segment) (bufsize : ℕ) (p : Bool) :
    Option (List UInt8 × AmEntity) := do
  let c ← (Encoder.init bufsize).putBits 1 1
  let c ← c.putBits 0 1
  let c ← c.putBits (if s.isFirst then 0 else 1) 1
  let c ← c.putBits (if s.isLast then 0 else 1) 1
  let c ← c.putBits 0 (if e.cfg.snFieldLength = .sn18 then 2 else 0)
  let c ← c.putBits (e.snOf s) e.cfg.snFieldLength.bits
  let c ← (if s.isFirst then some c else c.putBits s.so 16)
  let data := ((e.sdus s.sdu).data.drop s.so).take s.size
  if p then some (toBytes (c.setBit 0 6).bits ++ data, e.includePoll)
  else some (toBytes c.bits ++ data, e)

/-! ### Sending -/

/-- The first segment of the retransmit list is taken out; the part that does not fit stays. -/
def takeRetx (e : AmEntity) (s : Segment) (rest : List Segment) (size : ℕ) : Segment × AmEntity :=
  let pduSize := e.computePduHeaderSize s + s.size
  let e := { e with retransmitList := rest, bstatusRetxSize := e.bstatusRetxSize - pduSize }
  if pduSize > size then
    let (s, next, e) := e.resegment s size
    (s, { e with
      retransmitList := next :: rest
      bstatusRetxSize := e.bstatusRetxSize + e.computePduHeaderSize next + next.size })
  else (s, e)

/-- `generate_retx_pdu`; nothing is sent when there is no room for a byte of data. -/
def generateRetxPdu (e : AmEntity) (size : ℕ) : Option (List UInt8 × AmEntity) :=
  match e.retransmitList with
  | [] => some ([], e)
  | s :: rest =>
    if e.computePduHeaderSize s + 1 > size then some ([], e)
    else do
      let (s, e) := e.takeRetx s rest size
      let e ← e.putInWaitList s
      let (p, e) := e.takeForcePoll e.checkPollAfterPduAssembly
      e.serializeSdu s size p

/-- A sequence number is assigned to an SDU when its first segment is sent. -/
def assignSn (e : AmEntity) (s : Segment) : AmEntity :=
  let sdu := e.sdus s.sdu
  match sdu.sn with
  | some _ => e
  | none => { e.setSdu s.sdu { sdu with sn := some e.txNext } with txNext := e.nextSn e.txNext }

/-- A limit on what is sent without a poll has been reached. -/
def limitReached (count : ℕ) : Option ℕ → Bool
  | none => false
  | some limit => limit ≤ count

/-- The first segment of the transmit list is taken out; the part that does not fit stays. -/
def takeTx (e : AmEntity) (s : Segment) (rest : List Segment) (size : ℕ) : Segment × AmEntity :=
  let pduSize := e.computePduHeaderSize s + s.size
  let e := { e with txList := rest, bstatusTxSize := e.bstatusTxSize - pduSize }
  let e := e.assignSn s
  if pduSize > size then
    let (s, next, e) := e.resegment s size
    (s, { e with
      txList := next :: rest
      bstatusTxSize := e.bstatusTxSize + e.computePduHeaderSize next + next.size })
  else (s, e)

/-- `generate_tx_pdu` -/
def generateTxPdu (e : AmEntity) (size : ℕ) : Option (List UInt8 × AmEntity) :=
  if e.isWindowStalling then some ([], e)
  else
    match e.txList with
    | [] => some ([], e)
    | s :: rest =>
      if e.computePduHeaderSize s + 1 > size then some ([], e)
      else do
        let (s, e) := e.takeTx s rest size
        let e ← e.putInWaitList s
        let e := { e with
          pduWithoutPoll := e.pduWithoutPoll + 1
          byteWithoutPoll := e.byteWithoutPoll + s.size }
        let p := limitReached e.pduWithoutPoll e.cfg.pollPdu ||
          limitReached e.byteWithoutPoll e.cfg.pollByte || e.checkPollAfterPduAssembly
        let (p, e) := e.takeForcePoll p
        e.serializeSdu s size p

/-- `nr_rlc_entity_am_generate_pdu`: a status PDU goes first, then retransmissions. -/
def generatePdu (fuel : ℕ) (e : AmEntity) (size : ℕ) : Option (List UInt8 × AmEntity) := do
  let (pdu, e) ← (if e.statusToReport then e.generateStatus fuel size else some ([], e))
  if pdu ≠ [] then return (pdu, e)
  let (pdu, e) ← e.generateRetxPdu size
  if pdu ≠ [] then return (pdu, e)
  e.generateTxPdu size

/-- `nr_rlc_entity_am_recv_sdu`; an SDU that finds no room is rejected. -/
def recvSdu (e : AmEntity) (buffer : List UInt8) (sduId : ℕ) : Option AmEntity :=
  if buffer.length > nrSduMax then none
  else if e.txSize + buffer.length > e.cfg.txMaxsize then some e
  else
    let s : Segment := ⟨e.sduCount, buffer.length, 0, true, true⟩
    some { e.setSdu e.sduCount ⟨none, sduId, buffer, -1, 1, 0⟩ with
      sduCount := e.sduCount + 1
      txSize := e.txSize + buffer.length
      txList := e.txList ++ [s]
      bstatusTxSize := e.bstatusTxSize + e.computePduHeaderSize s + s.size }

/-- The loop of `check_t_poll_retransmit`: the segments of one SDU at the head of the wait list go
to the retransmit list. -/
def retransmitFrom (sn : ℕ) : List Segment → AmEntity → AmEntity
  | [], e => e
  | cur :: rest, e =>
    if e.snOf cur = sn then
      retransmitFrom sn rest { e with
        waitList := rest
        waitEnd := if rest.isEmpty then none else e.waitEnd.map (· - 1)
        bstatusRetxSize := e.bstatusRetxSize + e.computePduHeaderSize cur + cur.size
        retransmitList := e.listAdd cur e.retransmitList }
    else e

/-- The poll timer runs and has expired. -/
def pollRetransmitExpired (e : AmEntity) : Bool :=
  e.tPollRetransmitStart ≠ 0 ∧ e.tCurrent > e.tPollRetransmitStart + e.cfg.tPollRetransmit

/-- The timer is stopped, and the next PDU has a poll. -/
def expirePollRetransmit (e : AmEntity) : AmEntity :=
  { e with tPollRetransmitStart := 0, forcePoll := true }

/-- The first SDU of the wait list is to be sent again. -/
def retransmitFirst (e : AmEntity) : Option AmEntity :=
  match e.waitList with
  -- the head of the list is dereferenced without a check
  | [] => none
  | cur :: _ =>
    let sdu := e.sdus cur.sdu
    let e := e.setSdu cur.sdu { sdu with retxCount := sdu.retxCount + 1 }
    let e := retransmitFrom (e.snOf cur) e.waitList e
    some (if sdu.retxCount + 1 ≥ e.cfg.maxRetxThreshold then e.call .maxRetxReached else e)

/-- `check_t_poll_retransmit` -/
def checkTPollRetransmit (e : AmEntity) : Option AmEntity :=
  if e.pollRetransmitExpired = false then some e
  else if e.expirePollRetransmit.checkPollAfterPduAssembly = false then
    some e.expirePollRetransmit
  else e.expirePollRetransmit.retransmitFirst

/-- `nr_rlc_entity_am_set_time` -/
def setTime (fuel : ℕ) (e : AmEntity) (now : ℕ) : Option AmEntity := do
  let e ← { e with tCurrent := now }.checkTPollRetransmit
  e.checkTReassembly fuel

end AmEntity

end LlmHric.Rlc
