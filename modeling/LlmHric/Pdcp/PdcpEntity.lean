import Mathlib.Data.Int.Notation
import Mathlib.Data.List.Basic
import Mathlib.Tactic.Common
import Mathlib.Tactic.SplitIfs

/-! A PDCP entity numbers its SDUs with a COUNT of 32 bits, of which a PDU carries the low bits as
its sequence number. The receiving side infers the rest from the COUNT it will deliver next, keeps
what arrives too early in a list in the order of COUNT, and delivers in that order; the timer
`t_reordering` ends the wait for a COUNT that does not arrive.

Ciphering and integrity protection are parameters. Ciphering works in place and is undone by the
same function. -/

namespace LlmHric.Pdcp

/-- `nr_pdcp_entity_type_t` -/
inductive EntityType
  | drbAm
  | drbUm
  | srb
  deriving DecidableEq

/-- The two sizes of a sequence number, `SHORT_SN_SIZE` and `LONG_SN_SIZE`. -/
inductive SnSize
  | shortSn
  | longSn
  deriving DecidableEq

def SnSize.bits : SnSize → ℕ
  | shortSn => 12
  | longSn => 18

/-- `SHORT_PDCP_HEADER_SIZE` and `LONG_PDCP_HEADER_SIZE` -/
def SnSize.headerSize : SnSize → ℕ
  | shortSn => 2
  | longSn => 3

/-- `PDCP_INTEGRITY_SIZE` -/
def pdcpIntegritySize : ℕ := 4

/-- The configuration of an entity. A reordering timer of -1 is infinite, here `none`. -/
structure PdcpConfig where
  entityType : EntityType
  isGnb : Bool
  rbId : ℕ
  hasSdapRx : Bool
  hasSdapTx : Bool
  snSize : SnSize
  tReordering : Option ℕ
  deriving DecidableEq

namespace PdcpConfig

/-- `sn_max` -/
def snMax (cfg : PdcpConfig) : ℕ := (1 <<< cfg.snSize.bits) - 1

/-- `window_size` -/
def windowSize (cfg : PdcpConfig) : ℕ := 1 <<< (cfg.snSize.bits - 1)

end PdcpConfig

/-- The algorithms `nea1` and `nia1`, `nea2` and `nia2`. -/
inductive Algorithm
  | one
  | two
  deriving DecidableEq

/-- An algorithm with its key. -/
structure SecurityContext where
  algorithm : Algorithm
  key : List UInt8
  deriving DecidableEq

/-- What a security context computes of a buffer, the bearer, a COUNT and the direction. The same
function ciphers and deciphers, in place. -/
structure SecurityFunctions where
  cipher : SecurityContext → List UInt8 → ℕ → UInt32 → ℕ → List UInt8
  integrity : SecurityContext → List UInt8 → ℕ → UInt32 → ℕ → Vector UInt8 4
  length_cipher : ∀ ctx buffer bearer count direction,
    (cipher ctx buffer bearer count direction).length = buffer.length

/-- What `set_security` does about one of the two algorithms: -1 keeps it, 0 turns it off. -/
inductive AlgorithmChoice
  | keep
  | off
  | use (algorithm : Algorithm)
  deriving DecidableEq

/-- `nr_pdcp_entity_security_keys_and_algos_t` -/
structure SecurityParameters where
  integrityAlgorithm : AlgorithmChoice
  cipheringAlgorithm : AlgorithmChoice
  integrityKey : List UInt8
  cipheringKey : List UInt8
  deriving DecidableEq

def AlgorithmChoice.apply (key : List UInt8) (ctx : Option SecurityContext) :
    AlgorithmChoice → Option SecurityContext
  | keep => ctx
  | off => none
  | use algorithm => some ⟨algorithm, key⟩

/-- `nr_pdcp_integrity_data_t`; `header_size` is the length of the header. -/
structure IntegrityData where
  count : UInt32
  mac : List UInt8
  header : List UInt8
  deriving DecidableEq

/-- `nr_pdcp_sdu_t` -/
structure PdcpSdu where
  count : UInt32
  buffer : List UInt8
  msgIntegrity : IntegrityData
  deriving DecidableEq

/-- `nr_pdcp_entity_t`, with the SDUs it has delivered. `has_ciphering` and `has_integrity` say
whether there is a context. -/
structure PdcpEntity where
  cfg : PdcpConfig
  txNext : UInt32
  rxNext : UInt32
  rxDeliv : UInt32
  rxReord : UInt32
  tCurrent : ℕ
  tReorderingStart : ℕ
  ciphering : Option SecurityContext
  integrity : Option SecurityContext
  rxList : List PdcpSdu
  rxSize : ℤ
  entitySuspended : Bool
  delivered : List PdcpSdu

namespace PdcpEntity

/-- `nr_pdcp_entity_set_security` -/
def setSecurity (e : PdcpEntity) (parameters : SecurityParameters) : PdcpEntity :=
  { e with
    integrity := parameters.integrityAlgorithm.apply parameters.integrityKey e.integrity
    ciphering := parameters.cipheringAlgorithm.apply parameters.cipheringKey e.ciphering }

/-- `new_nr_pdcp_entity` -/
def new (cfg : PdcpConfig) (parameters : SecurityParameters) : PdcpEntity :=
  setSecurity ⟨cfg, 0, 0, 0, 0, 0, 0, none, none, [], 0, false, []⟩ parameters

/-- SRBs always have room for a MAC-I. -/
def integritySize (e : PdcpEntity) : ℕ :=
  if e.integrity.isSome ∨ e.cfg.entityType = .srb then pdcpIntegritySize else 0

/-! ### Reception -/

/-- The data bit is set in PDUs of data radio bearers that lack it. -/
def setDataBit (e : PdcpEntity) : List UInt8 → List UInt8
  | [] => []
  | b :: rest => if e.cfg.entityType ≠ .srb ∧ b &&& 0x80 = 0 then (b ||| 128) :: rest else b :: rest

/-- `rcvd_sn` -/
def rcvdSn (e : PdcpEntity) (buffer : List UInt8) : ℕ :=
  match e.cfg.snSize with
  | .shortSn => ((buffer.getD 0 0).toNat &&& 0xf) <<< 8 ||| (buffer.getD 1 0).toNat
  | .longSn =>
    ((buffer.getD 0 0).toNat &&& 0x3) <<< 16 ||| (buffer.getD 1 0).toNat <<< 8 |||
      (buffer.getD 2 0).toNat

/-- `rx_deliv_sn` -/
def rxDelivSn (e : PdcpEntity) : ℕ := (e.rxDeliv &&& .ofNat e.cfg.snMax).toNat

/-- `rx_deliv_hfn` -/
def rxDelivHfn (e : PdcpEntity) : UInt32 := e.rxDeliv >>> .ofNat e.cfg.snSize.bits

/-- `rcvd_hfn` -/
def rcvdHfn (e : PdcpEntity) (rcvdSn : ℕ) : UInt32 :=
  if (rcvdSn : ℤ) < e.rxDelivSn - e.cfg.windowSize then e.rxDelivHfn + 1
  else if rcvdSn ≥ e.rxDelivSn + e.cfg.windowSize then e.rxDelivHfn - 1
  else e.rxDelivHfn

/-- `rcvd_count` -/
def rcvdCount (e : PdcpEntity) (rcvdSn : ℕ) : UInt32 :=
  e.rcvdHfn rcvdSn <<< .ofNat e.cfg.snSize.bits ||| .ofNat rcvdSn

/-- The MAC-I, the header and the COUNT of a PDU, which RRC needs for some procedures. -/
def integrityData (e : PdcpEntity) (buffer : List UInt8) (count : UInt32) : IntegrityData :=
  if e.integrity.isSome ∨ e.cfg.entityType = .srb then
    ⟨count, buffer.drop (buffer.length - 4), buffer.take e.cfg.snSize.headerSize⟩
  else ⟨0, [0, 0, 0, 0], []⟩

/-- The bytes in front of what is ciphered. -/
def clearSize (e : PdcpEntity) (hasSdap : Bool) : ℕ :=
  e.cfg.snSize.headerSize + if hasSdap then 1 else 0

/-- A PDU after deciphering. -/
def decipher (f : SecurityFunctions) (e : PdcpEntity) (buffer : List UInt8) (count : UInt32) :
    List UInt8 :=
  match e.ciphering with
  | none => buffer
  | some ctx =>
    buffer.take (e.clearSize e.cfg.hasSdapRx) ++
      f.cipher ctx (buffer.drop (e.clearSize e.cfg.hasSdapRx)) e.cfg.rbId count
        (if e.cfg.isGnb then 0 else 1)

/-- The MAC-I of a deciphered PDU is the one that is computed. -/
def integrityPasses (f : SecurityFunctions) (e : PdcpEntity) (buffer : List UInt8)
    (count : UInt32) : Bool :=
  match e.integrity with
  | none => true
  | some ctx =>
    (f.integrity ctx (buffer.take (buffer.length - e.integritySize)) e.cfg.rbId count
      (if e.cfg.isGnb then 0 else 1)).toList == buffer.drop (buffer.length - e.integritySize)

/-- `nr_pdcp_sdu_in_list` -/
def sduInList (count : UInt32) (l : List PdcpSdu) : Bool := l.any fun sdu => sdu.count == count

/-- The SDU in a PDU of some COUNT, unless the MAC-I is wrong, or the COUNT has been delivered or is
in the list. -/
def checkedSdu (f : SecurityFunctions) (e : PdcpEntity) (buffer : List UInt8) (count : UInt32) :
    Option PdcpSdu :=
  if e.integrityPasses f (e.decipher f buffer count) count = false then none
  else if count < e.rxDeliv ∨ sduInList count e.rxList then none
  else some {
    count
    buffer := ((e.decipher f buffer count).drop e.cfg.snSize.headerSize).take
      (buffer.length - e.cfg.snSize.headerSize - e.integritySize)
    msgIntegrity := e.integrityData buffer count }

/-- The SDU in a PDU that is not discarded. -/
def receivedSdu (f : SecurityFunctions) (e : PdcpEntity) (buffer : List UInt8) : Option PdcpSdu :=
  if e.entitySuspended then none
  else if buffer.length < 1 then none
  else if buffer.length < e.clearSize e.cfg.hasSdapRx + e.integritySize + 1 then none
  else
    e.checkedSdu f (e.setDataBit buffer) (e.rcvdCount (e.rcvdSn (e.setDataBit buffer)))

/-- `nr_pdcp_sdu_list_add`: the list is in the order of COUNT. -/
def listAdd (sdu : PdcpSdu) : List PdcpSdu → List PdcpSdu
  | [] => [sdu]
  | cur :: rest => if sdu.count < cur.count then sdu :: cur :: rest else cur :: listAdd sdu rest

/-- An SDU that was received in a PDU of some size is put into the list. -/
def storeSdu (e : PdcpEntity) (sdu : PdcpSdu) (size : ℕ) : PdcpEntity :=
  { e with
    rxList := listAdd sdu e.rxList
    rxSize := e.rxSize + (size - e.cfg.snSize.headerSize)
    rxNext := if sdu.count ≥ e.rxNext then sdu.count + 1 else e.rxNext }

def deliverHead (e : PdcpEntity) (cur : PdcpSdu) (next : List PdcpSdu) : PdcpEntity :=
  { e with
    rxList := next
    rxSize := e.rxSize - cur.buffer.length
    delivered := e.delivered ++ [cur] }

/-- The loop that delivers the SDUs from a COUNT up to a discontinuity or the end of the list, and
the COUNT where it ends. -/
def deliverConsecutive (count : UInt32) : List PdcpSdu → PdcpEntity → UInt32 × PdcpEntity
  | [], e => (count, e)
  | cur :: next, e =>
    if count = cur.count then deliverConsecutive (count + 1) next (e.deliverHead cur next)
    else (count, e)

def deliverBefore (count : UInt32) : List PdcpSdu → PdcpEntity → PdcpEntity
  | [], e => e
  | cur :: next, e =>
    if cur.count < count then deliverBefore count next (e.deliverHead cur next) else e

/-- The loop of `deliver_all_sdus`. -/
def deliverAllSdus : List PdcpSdu → PdcpEntity → PdcpEntity
  | [], e => e
  | cur :: next, e => deliverAllSdus next (e.deliverHead cur next)

/-- The SDUs from a COUNT are delivered, and `rx_deliv` is behind them. -/
def deliverFrom (e : PdcpEntity) (count : UInt32) : PdcpEntity :=
  { (deliverConsecutive count e.rxList e).2 with
    rxDeliv := (deliverConsecutive count e.rxList e).1 }

/-- `t_reordering` is stopped when what it waits for has been delivered. -/
def stopTReordering (e : PdcpEntity) : PdcpEntity :=
  if e.tReorderingStart ≠ 0 ∧ e.rxDeliv ≥ e.rxReord then { e with tReorderingStart := 0 } else e

/-- `t_reordering` is started when something before `rx_next` is missing. -/
def startTReordering (e : PdcpEntity) : PdcpEntity :=
  if e.tReorderingStart = 0 ∧ e.rxDeliv < e.rxNext then
    { e with rxReord := e.rxNext, tReorderingStart := e.tCurrent }
  else e

/-- What `nr_pdcp_entity_recv_pdu` does with a PDU that is not discarded. -/
def acceptSdu (e : PdcpEntity) (sdu : PdcpSdu) (size : ℕ) : PdcpEntity :=
  let e := e.storeSdu sdu size
  let e := if sdu.count = e.rxDeliv then e.deliverFrom e.rxDeliv else e
  e.stopTReordering.startTReordering

/-- `nr_pdcp_entity_recv_pdu` -/
def recvPdu (f : SecurityFunctions) (e : PdcpEntity) (buffer : List UInt8) : PdcpEntity :=
  match e.receivedSdu f buffer with
  | none => e
  | some sdu => e.acceptSdu sdu buffer.length

/-- The header of a PDU. Only data radio bearers set the data bit. -/
def pduHeader (e : PdcpEntity) (sn : ℕ) : List UInt8 :=
  let dcBit : UInt8 := if e.cfg.entityType = .srb then 0 else 0x80
  match e.cfg.snSize with
  | .shortSn => [dcBit ||| .ofNat (sn >>> 8 &&& 0xf), .ofNat (sn &&& 0xff)]
  | .longSn =>
    [dcBit ||| .ofNat (sn >>> 16 &&& 0x3), .ofNat (sn >>> 8 &&& 0xff), .ofNat (sn &&& 0xff)]

/-- The MAC-I behind an SDU, 0 for SRBs whose integrity is not active. -/
def pduMac (f : SecurityFunctions) (e : PdcpEntity) (buffer : List UInt8) : List UInt8 :=
  match e.integrity with
  | some ctx => (f.integrity ctx buffer e.cfg.rbId e.txNext (if e.cfg.isGnb then 1 else 0)).toList
  | none => List.replicate e.integritySize 0

/-- A PDU after ciphering. -/
def encipher (f : SecurityFunctions) (e : PdcpEntity) (buffer : List UInt8) : List UInt8 :=
  match e.ciphering with
  | none => buffer
  | some ctx =>
    buffer.take (e.clearSize e.cfg.hasSdapTx) ++
      f.cipher ctx (buffer.drop (e.clearSize e.cfg.hasSdapTx)) e.cfg.rbId e.txNext
        (if e.cfg.isGnb then 1 else 0)

/-- The PDU of an SDU. -/
def pduOf (f : SecurityFunctions) (e : PdcpEntity) (buffer : List UInt8) : List UInt8 :=
  let plain := e.pduHeader (e.txNext &&& .ofNat e.cfg.snMax).toNat ++ buffer
  e.encipher f (plain ++ e.pduMac f plain)

/-- `nr_pdcp_entity_process_sdu`; no PDU is made while the entity is suspended. -/
def processSdu (f : SecurityFunctions) (e : PdcpEntity) (buffer : List UInt8) :
    Option (List UInt8) × PdcpEntity :=
  if e.entitySuspended then (none, e)
  else (some (e.pduOf f buffer), { e with txNext := e.txNext + 1 })

/-! ### Timer, suspension and release -/

/-- `check_t_reordering` -/
def checkTReordering (e : PdcpEntity) : PdcpEntity :=
  match e.cfg.tReordering with
  | none => e
  | some t =>
    if e.tReorderingStart = 0 ∨ e.tCurrent ≤ e.tReorderingStart + t then e
    else
      let e := { e with tReorderingStart := 0 }
      let e := deliverBefore e.rxReord e.rxList e
      (e.deliverFrom e.rxReord).startTReordering

/-- `nr_pdcp_entity_set_time` -/
def setTime (e : PdcpEntity) (now : ℕ) : PdcpEntity := { e with tCurrent := now }.checkTReordering

/-- `nr_pdcp_entity_release` -/
def release (e : PdcpEntity) : PdcpEntity := deliverAllSdus e.rxList e

/-- The stored SDUs are delivered if `t_reordering` runs, and the timer is stopped. -/
def flush (e : PdcpEntity) : PdcpEntity :=
  if e.tReorderingStart ≠ 0 then deliverAllSdus e.rxList { e with tReorderingStart := 0 } else e

/-- `nr_pdcp_entity_suspend` -/
def suspend (e : PdcpEntity) : PdcpEntity :=
  { ({ e with txNext := 0 }).flush with rxNext := 0, rxDeliv := 0, entitySuspended := true }

/-- `free_rx_list` -/
def freeRxList (e : PdcpEntity) : PdcpEntity := { e with rxList := [], rxSize := 0 }

/-- `nr_pdcp_entity_reestablish_drb_am` -/
def reestablishDrbAm (e : PdcpEntity) (parameters : SecurityParameters) : PdcpEntity :=
  { e.setSecurity parameters with entitySuspended := false }

/-- `nr_pdcp_entity_reestablish_drb_um` -/
def reestablishDrbUm (e : PdcpEntity) (parameters : SecurityParameters) : PdcpEntity :=
  let e := { ({ e with txNext := 0 }).flush with rxNext := 0, rxDeliv := 0 }
  { e.setSecurity parameters with entitySuspended := false }

/-- `nr_pdcp_entity_reestablish_srb` -/
def reestablishSrb (e : PdcpEntity) (parameters : SecurityParameters) : PdcpEntity :=
  let e := { ({ e with txNext := 0 }).freeRxList with
    tReorderingStart := 0, rxNext := 0, rxDeliv := 0 }
  { e.setSecurity parameters with entitySuspended := false }

/-- `reestablish_entity` -/
def reestablish (e : PdcpEntity) (parameters : SecurityParameters) : PdcpEntity :=
  match e.cfg.entityType with
  | .drbAm => e.reestablishDrbAm parameters
  | .drbUm => e.reestablishDrbUm parameters
  | .srb => e.reestablishSrb parameters

/-- The COUNT with some HFN and sequence number. -/
def composeCount (hfn sn : UInt32) (snSize : SnSize) : UInt32 :=
  hfn <<< .ofNat snSize.bits ||| (sn &&& .ofNat ((1 <<< snSize.bits) - 1))

/-- `nr_pdcp_entity_set_count_dl` -/
def setCountDl (e : PdcpEntity) (hfn sn : UInt32) (snSize : SnSize) : PdcpEntity :=
  { e with rxNext := composeCount hfn sn snSize + 1, rxDeliv := composeCount hfn sn snSize }

/-- `nr_pdcp_entity_set_count_ul` -/
def setCountUl (e : PdcpEntity) (hfn sn : UInt32) (snSize : SnSize) : PdcpEntity :=
  { e with txNext := composeCount hfn sn snSize }

end PdcpEntity

/-- An operation of the user of an entity. -/
inductive PdcpOp
  | recvPdu (buffer : List UInt8)
  | processSdu (buffer : List UInt8)
  | setTime (now : ℕ)
  | setSecurity (parameters : SecurityParameters)
  | suspend
  | reestablish (parameters : SecurityParameters)
  | release
  | setCountDl (hfn sn : UInt32) (snSize : SnSize)
  | setCountUl (hfn sn : UInt32) (snSize : SnSize)

namespace PdcpEntity

/-- An operation. -/
def op (f : SecurityFunctions) (e : PdcpEntity) : PdcpOp → PdcpEntity
  | .recvPdu buffer => e.recvPdu f buffer
  | .processSdu buffer => (e.processSdu f buffer).2
  | .setTime now => e.setTime now
  | .setSecurity parameters => e.setSecurity parameters
  | .suspend => e.suspend
  | .reestablish parameters => e.reestablish parameters
  | .release => e.release
  | .setCountDl hfn sn snSize => e.setCountDl hfn sn snSize
  | .setCountUl hfn sn snSize => e.setCountUl hfn sn snSize

/-- The state after some operations. -/
def run (f : SecurityFunctions) (e : PdcpEntity) (ops : List PdcpOp) : PdcpEntity :=
  ops.foldl (op f) e

end PdcpEntity

end LlmHric.Pdcp
