import LlmHric.Library.Window
import LlmHric.Rlc.Pdu

/-! An acknowledged mode entity sends its SDUs, whole or in segments, and keeps what it has sent
until the peer acknowledges it. Segments that are still to be sent are in `txList`, segments that
wait for an acknowledgement in `waitList`, and segments to be sent again in `retransmitList`. The
segments of an SDU share its header. The receiving side collects the segments of every sequence
number of its window and delivers an SDU when it is complete. -/

namespace LlmHric.Rlc

/-- `NR_SDU_MAX` -/
def nrSduMax : ℕ := 16000

/-- The two lengths of a sequence number that an entity can be configured with. -/
inductive SnFieldLength
  | sn12
  | sn18
  deriving DecidableEq

def SnFieldLength.bits : SnFieldLength → ℕ
  | sn12 => 12
  | sn18 => 18

/-- The configuration of an entity, with the buffer sizes as the entity stores them. A poll limit
that is infinite is `none`. -/
structure AmConfig where
  snFieldLength : SnFieldLength
  tPollRetransmit : ℕ
  tReassembly : ℕ
  tStatusProhibit : ℕ
  pollPdu : Option ℕ
  pollByte : Option ℕ
  maxRetxThreshold : ℕ
  rxMaxsize : ℕ
  txMaxsize : ℕ
  deriving DecidableEq

namespace AmConfig

/-- `sn_modulus` -/
def snModulus (cfg : AmConfig) : ℕ := 1 <<< cfg.snFieldLength.bits

/-- `window_size` -/
def windowSize (cfg : AmConfig) : ℕ := cfg.snModulus / 2

theorem snModulus_eq (cfg : AmConfig) : cfg.snModulus = 2 * cfg.windowSize := by
  rw [windowSize, snModulus]
  cases cfg.snFieldLength <;> rfl

theorem windowSize_pos (cfg : AmConfig) : 0 < cfg.windowSize := by
  rw [windowSize, snModulus]
  cases cfg.snFieldLength <;> simp [SnFieldLength.bits]

theorem windowSize_lt (cfg : AmConfig) : cfg.windowSize < cfg.snModulus := by
  have hpos := cfg.windowSize_pos
  rw [snModulus_eq]
  omega

theorem snModulus_pos (cfg : AmConfig) : 0 < cfg.snModulus :=
  cfg.windowSize_pos.trans cfg.windowSize_lt

end AmConfig

/-- `nr_rlc_sdu_t`. The sequence number is -1 in the source as long as none is assigned. -/
structure Sdu where
  sn : Option ℕ
  upperLayerId : ℕ
  data : List UInt8
  retxCount : ℤ
  refCount : ℕ
  freeCount : ℕ
  deriving DecidableEq

/-- `nr_rlc_sdu_segment_t`, with the number of its SDU for the pointer to it. -/
structure Segment where
  sdu : ℕ
  size : ℕ
  so : ℕ
  isFirst : Bool
  isLast : Bool
  deriving DecidableEq

/-- A list without the segment that is found in it. -/
theorem perm_cons_eraseP {p : Segment → Bool} {s : Segment} {l : List Segment}
    (h : l.find? p = some s) : l.Perm (s :: l.eraseP p) := by
  induction l with
  | nil => cases h
  | cons cur l ih =>
    by_cases hcur : p cur = true
    · rw [List.find?_cons_of_pos hcur] at h
      obtain rfl := Option.some.inj h
      rw [List.eraseP_cons_of_pos hcur]
    · rw [List.find?_cons_of_neg hcur] at h
      rw [List.eraseP_cons_of_neg hcur]
      exact ((ih h).cons cur).trans (.swap s cur _)

/-- A call into the upper layer. -/
inductive Upcall
  | deliverSdu (data : List UInt8)
  | sduSuccessfulDelivery (id : ℕ)
  | maxRetxReached
  deriving DecidableEq

/-- `nr_rlc_entity_am_t`. A timer that is 0 does not run. The end of the wait list is the position
of the segment that `wait_end` points to. -/
structure AmEntity where
  cfg : AmConfig
  rxNext : ℕ
  rxNextStatusTrigger : ℕ
  rxHighestStatus : ℕ
  rxNextHighest : ℕ
  statusTriggered : Bool
  txNext : ℕ
  txNextAck : ℕ
  pollSn : ℕ
  pduWithoutPoll : ℕ
  byteWithoutPoll : ℕ
  forcePoll : Bool
  tCurrent : ℕ
  tPollRetransmitStart : ℕ
  tReassemblyStart : ℕ
  tStatusProhibitStart : ℕ
  rx : RxManager
  rxSize : ℤ
  sdus : ℕ → Sdu
  sduCount : ℕ
  txList : List Segment
  txSize : ℤ
  waitList : List Segment
  waitEnd : Option ℕ
  retransmitList : List Segment
  bstatusTxSize : ℤ
  bstatusRetxSize : ℤ
  upcalls : List Upcall

namespace AmEntity

/-- The state of `new_nr_rlc_entity_am`. -/
def new (cfg : AmConfig) : AmEntity where
  cfg := cfg
  rxNext := 0
  rxNextStatusTrigger := 0
  rxHighestStatus := 0
  rxNextHighest := 0
  statusTriggered := false
  txNext := 0
  txNextAck := 0
  pollSn := 0
  pduWithoutPoll := 0
  byteWithoutPoll := 0
  forcePoll := false
  tCurrent := 0
  tPollRetransmitStart := 0
  tReassemblyStart := 0
  tStatusProhibitStart := 0
  rx := .new cfg.windowSize
  rxSize := 0
  sdus := fun _ => ⟨none, 0, [], -1, 0, 0⟩
  sduCount := 0
  txList := []
  txSize := 0
  waitList := []
  waitEnd := none
  retransmitList := []
  bstatusTxSize := 0
  bstatusRetxSize := 0
  upcalls := []

/-- `compute_pdu_header_size` -/
def computePduHeaderSize (e : AmEntity) (s : Segment) : ℕ :=
  2 + (if e.cfg.snFieldLength = .sn18 then 1 else 0) + if s.isFirst then 0 else 2

/-- `modulus_rx` -/
def modulusRx (e : AmEntity) (a : ℕ) : ℕ := Window.offset e.cfg.snModulus e.rxNext a

/-- `modulus_tx` -/
def modulusTx (e : AmEntity) (a : ℕ) : ℕ := Window.offset e.cfg.snModulus e.txNextAck a

/-- `sn_in_recv_window` -/
def snInRecvWindow (e : AmEntity) (sn : ℕ) : Bool := e.modulusRx sn < e.cfg.windowSize

/-- The sequence number after another one. -/
def nextSn (e : AmEntity) (sn : ℕ) : ℕ := (sn + 1) % e.cfg.snModulus

/-- The sequence number of the SDU of a segment; every segment that was sent has one. -/
def snOf (e : AmEntity) (s : Segment) : ℕ := (e.sdus s.sdu).sn.getD 0

/-- A call into the upper layer. -/
def call (e : AmEntity) (c : Upcall) : AmEntity := { e with upcalls := e.upcalls ++ [c] }

end AmEntity

end LlmHric.Rlc
