import LlmHric.Library.Run
import LlmHric.Rlc.AmTransmit

/-! A status PDU that is malformed, that acknowledges what was not sent or that reports something
behind its `ACK_SN` is discarded. Otherwise the entity goes over its wait list and its retransmit
list in the order of their sequence numbers, together with the NACKs. A segment that a NACK overlaps
goes to the retransmit list; a segment before `ACK_SN` that the NACKs have passed is freed. -/

namespace LlmHric.Rlc

/-! ### Reading -/

/-- A NACK for one sequence number; an end of -1 is the end of the SDU. -/
structure Nack where
  sn : ℕ
  soStart : ℕ
  soEnd : ℤ
  deriving DecidableEq

/-- A NACK as it stands in a status PDU, for a range of sequence numbers. -/
structure NackRange where
  nackSn : ℕ
  soStart : ℕ
  soEnd : ℤ
  range : ℕ
  deriving DecidableEq

/-- A status PDU. -/
structure ControlPdu where
  ackSn : ℕ
  nacks : List NackRange
  deriving DecidableEq

/-- The NACKs of a range, one for each sequence number. -/
def NackRange.expand (snModulus : ℕ) (n : NackRange) : List Nack :=
  (List.range n.range).map fun i =>
    ⟨(n.nackSn + i) % snModulus, if i = 0 then n.soStart else 0,
      if i = n.range - 1 then n.soEnd else -1⟩

/-- The fields of one NACK, and its `E1` bit. -/
def decodeNack (cfg : AmConfig) (d : Decoder) : Option (NackRange × ℕ × Decoder) := do
  let (nackSn, d) ← d.getBits cfg.snFieldLength.bits
  let (e1, d) ← d.getBits 1
  let (e2, d) ← d.getBits 1
  let (e3, d) ← d.getBits 1
  let (_, d) ← d.getBits (if cfg.snFieldLength = .sn18 then 3 else 1)
  let (soStart, d) ← if e2 = 1 then d.getBits 16 else some (0, d)
  let (soEnd, d) ← if e2 = 1 then d.getBits 16 else some (0xffff, d)
  let (range, d) ← if e3 = 1 then d.getBits 8 else some (1, d)
  return (⟨nackSn, soStart, if soEnd = 0xffff then -1 else soEnd, range⟩, e1, d)

/-- The NACKs that the `E1` bits announce. Every NACK takes more than a byte, so the number of
bytes bounds the rounds. -/
def decodeNacks (cfg : AmConfig) : ℕ → ℕ → Decoder → Option (List NackRange)
  | _, 0, _ => some []
  | 0, _ + 1, _ => none
  | fuel + 1, _ + 1, d => do
    let (n, e1, d) ← decodeNack cfg d
    let nacks ← decodeNacks cfg fuel e1 d
    return n :: nacks

def decodeControlPdu (cfg : AmConfig) (buffer : List UInt8) : Option ControlPdu := do
  let (_, d) ← (Decoder.init buffer).getBits 1
  let (cpt, d) ← d.getBits 3
  if cpt ≠ 0 then none
  let (ackSn, d) ← d.getBits cfg.snFieldLength.bits
  let (e1, d) ← d.getBits 1
  let (_, d) ← d.getBits (if cfg.snFieldLength = .sn18 then 1 else 7)
  let nacks ← decodeNacks cfg buffer.length e1 d
  return ⟨ackSn, nacks⟩

/-- `so_overlap` -/
def soOverlap (s₁ e₁ s₂ e₂ : ℤ) : Bool :=
  if s₁ < s₂ then e₁ == -1 || decide (e₁ ≥ s₂) else e₂ == -1 || decide (s₁ ≤ e₂)

/-- A NACK reports bytes of a segment of its SDU. -/
def Nack.overlaps (n : Nack) (s : Segment) : Bool :=
  soOverlap n.soStart n.soEnd s.so (s.so + s.size - 1)

namespace AmEntity

/-- A NACK that is not behind the previous one, or is behind `ACK_SN`. -/
def badNack (e : AmEntity) (ackSn : ℕ) (prev : Option Nack) (n : Nack) : Bool :=
  (match prev with
    | none => false
    | some prev =>
      decide (e.modulusTx n.sn < e.modulusTx prev.sn) ||
        (e.modulusTx n.sn == e.modulusTx prev.sn &&
          (prev.soEnd == -1 || decide ((n.soStart : ℤ) ≤ prev.soEnd)))) ||
    decide (e.modulusTx n.sn > e.modulusTx ackSn)

/-- The checks of the first pass over a status PDU. The variables for the previous NACK are set by
the second pass only, so here there never is one. -/
def validControlPdu (e : AmEntity) (c : ControlPdu) : Bool :=
  decide (e.modulusTx c.ackSn ≤ e.modulusTx e.txNext) &&
    c.nacks.all fun r => (r.expand e.cfg.snModulus).all fun n => !e.badNack c.ackSn none n

/-- `nr_rlc_free_sdu_segment`, and the report of an SDU that is freed completely. -/
def ackSegment (e : AmEntity) (s : Segment) : AmEntity :=
  let sdu := e.sdus s.sdu
  let e' := e.setSdu s.sdu { sdu with freeCount := sdu.freeCount + 1 }
  if sdu.freeCount + 1 = sdu.refCount then
    { e' with txSize := e'.txSize - sdu.data.length }.call
      (.sduSuccessfulDelivery sdu.upperLayerId)
  else e'

/-- A segment of the wait list is to be sent again. -/
def nackSegment (e : AmEntity) (s : Segment) : AmEntity :=
  let sdu := e.sdus s.sdu
  let e' := e.setSdu s.sdu { sdu with retxCount := sdu.retxCount + 1 }
  let e'' := if sdu.retxCount + 1 ≥ e.cfg.maxRetxThreshold * sdu.refCount then
    e'.call .maxRetxReached else e'
  { e'' with bstatusRetxSize := e''.bstatusRetxSize + e.computePduHeaderSize s + s.size }

/-- A segment of the retransmit list is acknowledged. -/
def ackRetxSegment (e : AmEntity) (s : Segment) : AmEntity :=
  { e with bstatusRetxSize := e.bstatusRetxSize - (e.computePduHeaderSize s + s.size) }.ackSegment s

end AmEntity

/-! ### The walk -/

/-- The walk over the two lists: the segments of the wait list that are kept, `cur_wait_list`, the
new retransmit list and `cur_retransmit_list`. -/
structure Scan where
  e : AmEntity
  keptWait : List Segment
  curWait : List Segment
  waitEnd : Option ℕ
  newRetx : List Segment
  curRetx : List Segment

namespace Scan

/-- The start of the walk. -/
def start (e : AmEntity) : Scan := ⟨e, [], e.waitList, e.waitEnd, [], e.retransmitList⟩

/-- The end of the wait list when the segment behind the kept ones is taken out. -/
def endAfter (c : Scan) : Option ℕ :=
  match c.waitEnd with
  | none => none
  | some i =>
    if i = c.keptWait.length then
      if c.keptWait.length = 0 then none else some (c.keptWait.length - 1)
    else if i > c.keptWait.length then some (i - 1) else some i

/-- What a round of the walk does next: go on with the NACK, go to the next NACK, or leave the NACKs
of the range. -/
inductive Next
  | processNextPdu (c : Scan)
  | doneNack (c : Scan)
  | listsOver (c : Scan)

/-- A segment lies behind a NACK, and cannot be classified yet. -/
def behind (c : Scan) (n : Nack) (s : Segment) : Bool :=
  decide (c.e.modulusTx (c.e.snOf s) > c.e.modulusTx n.sn) ||
    (c.e.modulusTx (c.e.snOf s) == c.e.modulusTx n.sn && decide (s.so > n.soStart))

/-- The label `process_wait_list_head`. -/
def waitHead (n : Nack) (ackSn : ℕ) (c : Scan) (s : Segment) (rest : List Segment) : Next :=
  if c.e.snOf s = n.sn ∧ n.overlaps s then
    .processNextPdu { c with
      e := c.e.nackSegment s, curWait := rest, waitEnd := c.endAfter, newRetx := c.newRetx ++ [s] }
  else if c.behind n s then .doneNack c
  else if c.e.modulusTx (c.e.snOf s) < c.e.modulusTx ackSn then
    .processNextPdu { c with e := c.e.ackSegment s, curWait := rest, waitEnd := c.endAfter }
  else if c.e.modulusTx (c.e.snOf s) > c.e.modulusTx ackSn then
    -- done with this list
    .processNextPdu { c with keptWait := c.keptWait ++ c.curWait, curWait := [] }
  else .processNextPdu { c with keptWait := c.keptWait ++ [s], curWait := rest }

/-- The label `process_retransmit_list_head`. -/
def retxHead (n : Nack) (ackSn : ℕ) (c : Scan) (s : Segment) (rest : List Segment) : Next :=
  if c.e.snOf s = n.sn ∧ n.overlaps s then
    .processNextPdu { c with newRetx := c.newRetx ++ [s], curRetx := rest }
  else if c.behind n s then .doneNack c
  else if c.e.modulusTx (c.e.snOf s) < c.e.modulusTx ackSn then
    .processNextPdu { c with e := c.e.ackRetxSegment s, curRetx := rest }
  else if c.curWait.isEmpty then
    -- the remaining list is linked to the new one, but the end of the function cuts it off again
    .listsOver { c with curRetx := [] }
  else .processNextPdu { c with newRetx := c.newRetx ++ [s], curRetx := rest }

/-- The label `process_next_pdu`: the smallest segment of the two lists is processed. -/
def step (n : Nack) (ackSn : ℕ) (c : Scan) : Next :=
  match c.curWait, c.curRetx with
  | [], [] => .listsOver c
  | [], s :: rest => c.retxHead n ackSn s rest
  | s :: rest, [] => c.waitHead n ackSn s rest
  | s :: rest, s' :: rest' =>
    if c.e.modulusTx (c.e.snOf s) < c.e.modulusTx (c.e.snOf s') ∨
        (c.e.modulusTx (c.e.snOf s) = c.e.modulusTx (c.e.snOf s') ∧ s.so < s'.so) then
      c.waitHead n ackSn s rest
    else c.retxHead n ackSn s' rest'

/-- The rounds for one NACK, and whether the lists are over. Every round but the last takes a
segment from a list. -/
def processNack (n : Nack) (ackSn : ℕ) : ℕ → Scan → Scan × Bool
  | 0, c => (c, true)
  | fuel + 1, c =>
    match c.step n ackSn with
    | .processNextPdu c' => processNack n ackSn fuel c'
    | .doneNack c' => (c', false)
    | .listsOver c' => (c', true)

/-- The NACKs of a range. -/
def processNacks (ackSn : ℕ) : List Nack → Scan → Scan
  | [], c => c
  | n :: ns, c =>
    match processNack n ackSn (c.curWait.length + c.curRetx.length + 1) c with
    | (c', true) => c'
    | (c', false) => processNacks ackSn ns c'

/-- `t_poll_retransmit` is stopped by a NACK for `POLL_SN`. -/
def stopPoll (r : NackRange) (e : AmEntity) : AmEntity :=
  if e.modulusTx r.nackSn ≤ e.modulusTx e.pollSn ∧
      e.modulusTx e.pollSn < e.modulusTx ((r.nackSn + r.range) % e.cfg.snModulus) then
    { e with tPollRetransmitStart := 0 }
  else e

def processRange (ackSn : ℕ) (c : Scan) (r : NackRange) : Scan :=
  let c' := processNacks ackSn (r.expand c.e.cfg.snModulus) c
  { c' with e := stopPoll r c'.e }

/-- The segments of the wait list that are left are acknowledged. -/
def ackWait (ackSn : ℕ) : List Segment → Scan → Scan
  | [], c => c
  | s :: rest, c =>
    if c.e.modulusTx (c.e.snOf s) < c.e.modulusTx ackSn then
      ackWait ackSn rest
        { c with e := c.e.ackSegment s, curWait := rest, waitEnd := c.endAfter }
    else c

/-- The segments of the retransmit list that are left are acknowledged. -/
def ackRetx (ackSn : ℕ) : List Segment → Scan → Scan
  | [], c => c
  | s :: rest, c =>
    if c.e.modulusTx (c.e.snOf s) < c.e.modulusTx ackSn then
      ackRetx ackSn rest { c with e := c.e.ackRetxSegment s, curRetx := rest }
    else c

/-- The lists after the walk. -/
def finish (c : Scan) : AmEntity :=
  { c.e with
    waitList := c.keptWait ++ c.curWait
    waitEnd := c.waitEnd
    retransmitList := c.newRetx ++ c.curRetx }

end Scan

namespace AmEntity

/-- The smaller of two sequence numbers, of which the second may be missing. -/
def minSn (e : AmEntity) (sn : ℕ) : Option ℕ → ℕ
  | none => sn
  | some sn' => if e.modulusTx sn' < e.modulusTx sn then sn' else sn

/-- The update of `tx_next_ack`. -/
def updateTxNextAck (e : AmEntity) (ackSn : ℕ) : AmEntity :=
  let sn := e.minSn e.txNext (e.waitList.head?.map e.snOf)
  let sn := e.minSn sn (e.retransmitList.head?.map e.snOf)
  { e with txNextAck := e.minSn sn (some ackSn) }

/-- The second pass over a status PDU. -/
def applyControlPdu (e : AmEntity) (c : ControlPdu) : AmEntity :=
  -- `t_poll_retransmit` is stopped by an acknowledgement of `POLL_SN`
  let e' := if e.modulusTx e.pollSn < e.modulusTx c.ackSn then
    { e with tPollRetransmitStart := 0 } else e
  let scan := c.nacks.foldl (Scan.processRange c.ackSn) (.start e')
  let scan := scan.ackWait c.ackSn scan.curWait
  let scan := scan.ackRetx c.ackSn scan.curRetx
  scan.finish.updateTxNextAck c.ackSn

/-- `process_control_pdu` -/
def processControlPdu (e : AmEntity) (buffer : List UInt8) : AmEntity :=
  match decodeControlPdu e.cfg buffer with
  | none => e
  | some c => if e.validControlPdu c then e.applyControlPdu c else e

/-- `nr_rlc_entity_am_recv_pdu` -/
def recvPdu (fuel : ℕ) (e : AmEntity) (buffer : List UInt8) : Option AmEntity :=
  match (Decoder.init buffer).getBits 1 with
  | none => some e
  | some (dc, d) =>
    if dc = 0 then some (e.processControlPdu buffer) else e.recvDataPdu fuel d

/-- `nr_rlc_entity_am_discard_sdu`: an SDU that has not been sent in part is taken from the list. -/
def discardSdu (e : AmEntity) (sduId : ℕ) : AmEntity :=
  match e.txList.find? fun s => (e.sdus s.sdu).upperLayerId == sduId with
  | none => e
  | some s =>
    if s.isFirst && s.isLast then
      let sdu := e.sdus s.sdu
      { e.setSdu s.sdu { sdu with freeCount := sdu.freeCount + 1 } with
        txList := e.txList.eraseP fun s => (e.sdus s.sdu).upperLayerId == sduId
        bstatusTxSize := e.bstatusTxSize - (e.computePduHeaderSize s + s.size)
        txSize := e.txSize - sdu.data.length }
    else e

end AmEntity

/-- An operation of the user of an entity. -/
inductive AmOp
  | recvSdu (buffer : List UInt8) (sduId : ℕ)
  | generatePdu (size : ℕ)
  | recvPdu (buffer : List UInt8)
  | setTime (now : ℕ)
  | discardSdu (sduId : ℕ)

/-- An operation, when its loops need at most a number of rounds. -/
def AmEntity.op (fuel : ℕ) (e : AmEntity) : AmOp → Option AmEntity
  | .recvSdu buffer sduId => e.recvSdu buffer sduId
  | .generatePdu size => (e.generatePdu fuel size).map (·.2)
  | .recvPdu buffer => e.recvPdu fuel buffer
  | .setTime now => e.setTime fuel now
  | .discardSdu sduId => some (e.discardSdu sduId)

/-- A run of an entity with some configuration; every operation returns. -/
abbrev AmRun (cfg : AmConfig) (ops : List AmOp) (e : AmEntity) : Prop :=
  Run.Reach (fun op e e' => ∃ fuel, e.op fuel op = some e') (· = AmEntity.new cfg) ops e

end LlmHric.Rlc
