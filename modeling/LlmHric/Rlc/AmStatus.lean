import LlmHric.Rlc.AmReceive

/-! A status report acknowledges every sequence number below `ACK_SN`, except for the bytes that its
NACKs name. The receiver goes over its segments, looks for the missing parts between them, and
writes a NACK for each as long as there is room.

The scans run on a number of rounds and give `none` when they need more; a write past the end of
the buffer, which ends the program, is `none` too. -/

namespace LlmHric.Rlc

/-- `missing_data_t`: a missing part, and the segment to go on with. A segment is given with the
ones behind it in its slot. -/
structure Missing where
  snStart : ℕ
  soStart : ℕ
  snEnd : ℕ
  soEnd : ℕ
  next : List Pdu
  deriving DecidableEq

/-- The encoder of a report: the position of the last `E1` bit, and the byte of the last `SOend`,
if the last NACK has one. -/
structure StatusEncoder where
  encoder : Encoder
  e1Byte : ℕ
  e1Bit : ℕ
  soEndByte : Option ℕ

/-- A truncated report asks for everything behind its last NACK: its `SOend` becomes `0xffff`. -/
def StatusEncoder.forceSoEnd (s : StatusEncoder) : StatusEncoder :=
  match s.soEndByte with
  | none => s
  | some byte =>
    { s with encoder := { s.encoder with
        bits := s.encoder.bits.take (8 * byte) ++ List.replicate 16 true ++
          s.encoder.bits.drop (8 * byte + 16) } }

namespace AmEntity

/-- The sequence number before another one. -/
def prevSn (e : AmEntity) (sn : ℕ) : ℕ := (sn + e.cfg.snModulus - 1) % e.cfg.snModulus

/-! ### Missing parts -/

/-- The loop of `get_first_rx_pdu` and `get_next_rx_pdu`: the first segment from a sequence number
up to `rx_highest_status`. -/
def scanSlots (e : AmEntity) : ℕ → ℕ → List Pdu
  | 0, sn => e.rx.getPduFromSn sn
  | fuel + 1, sn =>
    if sn = e.rxHighestStatus then e.rx.getPduFromSn sn
    else
      match e.rx.getPduFromSn sn with
      | [] => e.scanSlots fuel (e.nextSn sn)
      | pdu :: rest => pdu :: rest

/-- `get_first_rx_pdu`; the sequence numbers come round after `sn_modulus` steps. -/
def getFirstRxPdu (e : AmEntity) : List Pdu := e.scanSlots e.cfg.snModulus e.rxNext

/-- `get_next_rx_pdu` -/
def getNextRxPdu (e : AmEntity) (cur : Pdu) : List Pdu → List Pdu
  | [] =>
    if cur.sn = e.rxHighestStatus then []
    else e.scanSlots e.cfg.snModulus (e.nextSn cur.sn)
  | pdu :: rest => pdu :: rest

/-- Nothing is reported from `rx_highest_status` on. -/
def reports (e : AmEntity) (sn : ℕ) : Bool := e.modulusRx e.rxHighestStatus > e.modulusRx sn

def report (e : AmEntity) (m : Missing) : Option Missing :=
  if e.reports m.snStart then some m else none

/-- The end of a missing part before a segment of another SDU, at most `rx_highest_status`. -/
def setEndDifferentSdu (e : AmEntity) (cur : Pdu) (m : Missing) : Missing :=
  let m' := if cur.isFirst then { m with snEnd := e.prevSn cur.sn, soEnd := 0xffff }
    else { m with snEnd := cur.sn, soEnd := cur.so - 1 }
  if e.reports m'.snEnd then m'
  else { m' with snEnd := e.prevSn e.rxHighestStatus, soEnd := 0xffff, next := [] }

/-- The start of what is missing behind the segments of `sn` that have been seen. -/
def missingAfter (e : AmEntity) (sn maxSo : ℕ) (lastReached : Bool) : ℕ × ℕ :=
  if lastReached then (e.nextSn sn, 0) else (sn, maxSo + 1)

/-- The rounds of `next_missing` from the label `next_pdu` on. -/
def nextMissingFrom (e : AmEntity) :
    ℕ → Pdu → List Pdu → ℕ → Bool → Option (Option Missing)
  | 0, _, _, _, _ => none
  | fuel + 1, cur, rest, maxSo, lastReached =>
    let sn := cur.sn
    let maxSo := max maxSo (cur.so + cur.size - 1)
    let lastReached := lastReached || cur.isLast
    match e.getNextRxPdu cur rest with
    | [] =>
      -- what follows is missing up to `rx_highest_status`
      let start := if cur.data.isNone then (e.nextSn sn, 0) else e.missingAfter sn maxSo lastReached
      some (e.report ⟨start.1, start.2, e.prevSn e.rxHighestStatus, 0xffff, []⟩)
    | cur' :: rest' =>
      if cur'.sn = sn ∧ cur'.so ≤ maxSo + 1 then
        e.nextMissingFrom fuel cur' rest' maxSo lastReached
      else if cur'.sn = e.nextSn sn ∧ lastReached ∧ cur'.isFirst then
        e.nextMissingFrom fuel cur' rest' 0 false
      else if cur'.sn = sn then
        some (e.report ⟨sn, maxSo + 1, sn, cur'.so - 1, cur' :: rest'⟩)
      else
        let start := e.missingAfter sn maxSo lastReached
        some ((e.report ⟨start.1, start.2, 0, 0, cur' :: rest'⟩).map (e.setEndDifferentSdu cur'))

/-- `next_missing`; with `check_head`, the part before the first segment comes first. -/
def nextMissing (fuel : ℕ) (e : AmEntity) (cur : Pdu) (rest : List Pdu) (checkHead : Bool) :
    Option (Option Missing) :=
  if checkHead ∧ (cur.sn ≠ e.rxNext ∨ cur.isFirst = false) then
    some ((e.report ⟨e.rxNext, 0, 0, 0, cur :: rest⟩).map (e.setEndDifferentSdu cur))
  else e.nextMissingFrom fuel cur rest 0 false

/-- `nack_size` -/
def nackSize (e : AmEntity) (snStart soStart snEnd soEnd : ℕ) : ℕ :=
  2 + (if e.cfg.snFieldLength = .sn18 then 1 else 0) +
    (if soStart = 0 ∧ soEnd = 0xffff then 0 else 4) + if snStart = snEnd then 0 else 1

/-- The bits of one NACK. -/
def putNack (e : AmEntity) (s : StatusEncoder) (snStart soStart snEnd soEnd snCount : ℕ) :
    Option StatusEncoder := do
  -- the `E1` bit before says that a NACK follows
  let c := s.encoder.setBit s.e1Byte s.e1Bit
  let (e1Byte, e1Bit) := if e.cfg.snFieldLength = .sn18 then (c.byte + 2, 5) else (c.byte + 1, 3)
  let e2 := ¬ (soStart = 0 ∧ soEnd = 0xffff)
  let e3 := snStart ≠ snEnd
  let c ← c.putBits snStart e.cfg.snFieldLength.bits
  let c ← c.putBits 0 1
  let c ← c.putBits (if e2 then 1 else 0) 1
  let c ← c.putBits (if e3 then 1 else 0) 1
  let c ← c.putBits 0 (if e.cfg.snFieldLength = .sn18 then 3 else 1)
  let (c, soEndByte) ← if e2 then do
      let c ← c.putBits soStart 16
      let soEndByte := c.byte
      let c ← c.putBits soEnd 16
      some (c, some soEndByte)
    else some (c, none)
  let c ← if e3 then c.putBits snCount 8 else some c
  return ⟨c, e1Byte, e1Bit, soEndByte⟩

/-- The loop of `generate_missing`, with the count of sequence numbers that are left: the last one
that was put, and whether the report was truncated. -/
def generateMissingFrom (e : AmEntity) (m : Missing) :
    ℕ → ℕ → ℕ → StatusEncoder → Option ℕ → Option (StatusEncoder × Option ℕ × Bool)
  | 0, _, _, s, last => some (s, last, false)
  | fuel + 1, snStart, snCount, s, last =>
    if snCount = 0 then some (s, last, false)
    else
      let curSnCount := min snCount 255
      let soStart := if snStart = m.snStart then m.soStart else 0
      let (snEnd, soEnd) := if curSnCount = snCount then (m.snEnd, m.soEnd)
        else ((snStart + 254) % e.cfg.snModulus, 0xffff)
      if s.encoder.byte + e.nackSize snStart soStart snEnd soEnd > s.encoder.size then
        some (s, last, true)
      else do
        let s ← e.putNack s snStart soStart snEnd soEnd curSnCount
        -- the count is added without the modulus, `ACK_SN` is reduced later
        let last := snStart + if snStart ≠ snEnd then curSnCount - 1 else 0
        e.generateMissingFrom m fuel ((snStart + curSnCount) % e.cfg.snModulus)
          (snCount - curSnCount) s (some last)

/-- `generate_missing` -/
def generateMissing (e : AmEntity) (m : Missing) (s : StatusEncoder) :
    Option (StatusEncoder × Option ℕ × Bool) :=
  let snCount := (m.snEnd + e.cfg.snModulus - m.snStart) % e.cfg.snModulus + 1
  e.generateMissingFrom m snCount m.snStart snCount s none

/-- The loop of `generate_status`: the encoder and the last sequence number with a NACK. -/
def generateStatusFrom (e : AmEntity) :
    ℕ → List Pdu → Bool → StatusEncoder → ℕ → Option (StatusEncoder × ℕ)
  | 0, _, _, _, _ => none
  | _ + 1, [], _, s, lastNack => some (s, lastNack)
  | fuel + 1, cur :: rest, checkHead, s, lastNack =>
    match e.nextMissing fuel cur rest checkHead with
    | none => none
    | some none => some (s, lastNack)
    | some (some m) =>
      match e.generateMissing m s with
      | none => none
      | some (s', last, truncated) =>
        let s'' := if truncated then s'.forceSoEnd else s'
        e.generateStatusFrom fuel (if truncated then [] else m.next) false s'' (last.getD lastNack)

/-- The bytes of `ACK_SN`, which are put last. -/
def putAckSn (e : AmEntity) (ackSn : ℕ) (buffer : List UInt8) : List UInt8 :=
  match e.cfg.snFieldLength with
  | .sn12 => (buffer.set 0 (.ofNat (ackSn >>> 8))).set 1 (.ofNat (ackSn % 256))
  | .sn18 =>
    ((buffer.set 0 (.ofNat (ackSn >>> 14))).set 1 (.ofNat ((ackSn >>> 6) % 256))).set 2
      (buffer.getD 2 0 ||| .ofNat ((ackSn % 64) <<< 2))

/-- `generate_status`; nothing is written when there is no room for three bytes. -/
def generateStatus (fuel : ℕ) (e : AmEntity) (size : ℕ) : Option (List UInt8 × AmEntity) :=
  if size < 3 then some ([], e)
  else do
    let c ← (Encoder.init size).putBits 0 24
    let s : StatusEncoder := ⟨c, 2, if e.cfg.snFieldLength = .sn18 then 1 else 7, none⟩
    let (s, lastNack) ← e.generateStatusFrom fuel e.getFirstRxPdu true s (e.prevSn e.rxNext)
    let ackSn := e.nextSn lastNack
    return (e.putAckSn ackSn (toBytes s.encoder.bits),
      { e with statusTriggered := false, tStatusProhibitStart := e.tCurrent })

/-- `status_to_report` -/
def statusToReport (e : AmEntity) : Bool :=
  e.statusTriggered &&
    -- the times are unsigned, so a clock that went back is far ahead
    (e.tStatusProhibitStart == 0 || decide (e.tCurrent < e.tStatusProhibitStart) ||
      decide (e.tCurrent - e.tStatusProhibitStart > e.cfg.tStatusProhibit))

end AmEntity

end LlmHric.Rlc
