import LlmHric.Rlc.ReceiveTermination
import LlmHric.Rlc.StatusWalk

/-! When `t_poll_retransmit` expires and there is nothing else to send, the entity sends the first
SDU of the wait list again, and does not check that there is one. A poll is sent with a segment that
is put into the wait list. A status PDU that answers the poll stops the timer, but one with an older
`ACK_SN` can empty the wait list and let the timer run. -/

namespace LlmHric.Rlc

namespace AmEntity

variable {e e' : AmEntity} {c : ControlPdu} {s : Segment} {fuel : ℕ}

/-! ### The window -/

theorem SnInv.isWindowStalling_eq_false (h : e.SnInv) :
    e.isWindowStalling = false ↔ e.modulusTx e.txNext < e.cfg.windowSize := by
  have hself : e.modulusTx e.txNextAck = 0 := Window.offset_self
  have hwindow : e.modulusTx ((e.txNextAck + e.cfg.windowSize) % e.cfg.snModulus) =
      e.cfg.windowSize := Window.offset_add_mod h.txNextAck e.cfg.windowSize_lt
  rw [isWindowStalling, hself, hwindow]
  simp

theorem minSn_eq (sn : ℕ) (o : Option ℕ) : e.minSn sn o = sn ∨ e.minSn sn o ∈ o := by
  cases o with
  | none => exact .inl rfl
  | some sn' =>
    rw [minSn]
    split_ifs
    · exact .inr rfl
    · exact .inl rfl

theorem modulusTx_minSn_le (sn : ℕ) (o : Option ℕ) :
    e.modulusTx (e.minSn sn o) ≤ e.modulusTx sn := by
  cases o with
  | none => exact le_rfl
  | some sn' =>
    rw [minSn]
    split_ifs with h
    · exact h.le
    · exact le_rfl

/-- `tx_next_ack` moves to `tx_next`, to the first segment of a list or to `ACK_SN`, and not behind
`tx_next`. -/
theorem txNextAck_updateTxNextAck (ackSn : ℕ) :
    ((e.updateTxNextAck ackSn).txNextAck = e.txNext ∨
      (∃ w ∈ e.waitList.head?, (e.updateTxNextAck ackSn).txNextAck = e.snOf w) ∨
      (∃ r ∈ e.retransmitList.head?, (e.updateTxNextAck ackSn).txNextAck = e.snOf r) ∨
      (e.updateTxNextAck ackSn).txNextAck = ackSn) ∧
    e.modulusTx (e.updateTxNextAck ackSn).txNextAck ≤ e.modulusTx e.txNext := by
  set sn₁ := e.minSn e.txNext (e.waitList.head?.map e.snOf) with h₁
  set sn₂ := e.minSn sn₁ (e.retransmitList.head?.map e.snOf) with h₂
  have h₃ : (e.updateTxNextAck ackSn).txNextAck = e.minSn sn₂ (some ackSn) := rfl
  constructor
  · rw [h₃]
    rcases minSn_eq (e := e) sn₂ (some ackSn) with h | h
    · rw [h, h₂]
      rcases minSn_eq (e := e) sn₁ (e.retransmitList.head?.map e.snOf) with h | h
      · rw [h, h₁]
        rcases minSn_eq (e := e) e.txNext (e.waitList.head?.map e.snOf) with h | h
        · exact .inl h
        · obtain ⟨w, hw, heq⟩ := Option.map_eq_some_iff.mp h
          exact .inr (.inl ⟨w, hw, heq.symm⟩)
      · obtain ⟨r, hr, heq⟩ := Option.map_eq_some_iff.mp h
        exact .inr (.inr (.inl ⟨r, hr, heq.symm⟩))
    · exact .inr (.inr (.inr (Option.some.inj h).symm))
  · rw [h₃]
    exact (modulusTx_minSn_le _ _).trans ((modulusTx_minSn_le _ _).trans (modulusTx_minSn_le _ _))

/-- The window is open after a status PDU: `tx_next` is in the window that starts at `ACK_SN` or at
a NACK. -/
def WindowOpens (e : AmEntity) (c : ControlPdu) : Prop :=
  e.modulusTx e.txNext < e.modulusTx c.ackSn + e.cfg.windowSize ∧
    ∀ n ∈ e.nacksOf c, e.modulusTx e.txNext < e.modulusTx n.sn + e.cfg.windowSize

theorem ackSn_lt {cfg : AmConfig} {buffer : List UInt8} (h : decodeControlPdu cfg buffer = some c) :
    c.ackSn < cfg.snModulus := by
  simp only [decodeControlPdu, Option.bind_eq_bind, Option.pure_def, Option.bind_eq_some_iff,
    Prod.exists] at h
  obtain ⟨_, _, -, cpt, _, -, h⟩ := h
  by_cases hcpt : cpt ≠ 0
  · rw [if_pos hcpt] at h
    cases h
  · simp only [if_neg hcpt, Option.bind_eq_some_iff, Prod.exists, Option.some.injEq] at h
    obtain ⟨ackSn, _, hack, _, _, -, _, _, -, _, -, rfl⟩ := h
    rw [AmConfig.snModulus, Nat.one_shiftLeft]
    exact Decoder.getBits_lt hack

namespace AfterWalk

/-- Sequence numbers stay below the modulus. -/
theorem snInv (h : e.AfterWalk c e') (hinv : e.SnInv) (hack : c.ackSn < e.cfg.snModulus) :
    (e'.updateTxNextAck c.ackSn).SnInv := by
  have hinv' : e'.SnInv := hinv.of_agrees h.agrees
  refine ⟨hinv'.txNext, ?_, hinv'.snOf⟩
  change (e'.updateTxNextAck c.ackSn).txNextAck < e'.cfg.snModulus
  rcases (txNextAck_updateTxNextAck (e := e') c.ackSn).1 with heq | ⟨w, -, heq⟩ | ⟨r, -, heq⟩ | heq
  · rw [heq]
    exact hinv'.txNext
  · rw [heq]
    exact hinv'.snOf w
  · rw [heq]
    exact hinv'.snOf r
  · rw [heq, h.agrees.cfg]
    exact hack

/-- How far `tx_next` is from the new `tx_next_ack`. -/
theorem lt_windowSize (h : e.AfterWalk c e') (hopens : e.WindowOpens c) :
    e.modulusTx e.txNext <
      e.modulusTx (e'.updateTxNextAck c.ackSn).txNextAck + e.cfg.windowSize := by
  obtain ⟨hack, hnacks⟩ := hopens
  rcases (txNextAck_updateTxNextAck (e := e') c.ackSn).1 with
      heq | ⟨w, hw, heq⟩ | ⟨r, hr, heq⟩ | heq
  · rw [heq, h.agrees.txNext]
    exact Nat.lt_add_of_pos_right e.cfg.windowSize_pos
  · rw [heq, h.agrees.snOf]
    exact hack.trans_le (Nat.add_le_add_right (h.heads.1 w hw) _)
  · rw [heq, h.agrees.snOf]
    rcases h.heads.2 r hr with hle | ⟨n, hn, hsn⟩
    · exact hack.trans_le (Nat.add_le_add_right hle _)
    · rw [hsn]
      exact hnacks n hn
  · rw [heq]
    exact hack

theorem isWindowStalling_eq_false (h : e.AfterWalk c e') (hinv : e.SnInv)
    (hack : c.ackSn < e.cfg.snModulus) (hopens : e.WindowOpens c) :
    (e'.updateTxNextAck c.ackSn).isWindowStalling = false := by
  have hinv' := h.snInv hinv hack
  rw [hinv'.isWindowStalling_eq_false]
  have hle : e.modulusTx (e'.updateTxNextAck c.ackSn).txNextAck ≤ e.modulusTx e.txNext := by
    rw [← h.agrees.txNext, ← h.agrees.modulusTx]
    exact (txNextAck_updateTxNextAck c.ackSn).2
  have hnext : (e'.updateTxNextAck c.ackSn).txNext = e.txNext := h.agrees.txNext
  have hcfg : (e'.updateTxNextAck c.ackSn).cfg = e.cfg := h.agrees.cfg
  have hbase : (e'.updateTxNextAck c.ackSn).txNextAck < e.cfg.snModulus := hcfg ▸ hinv'.txNextAck
  have hrebase : (e'.updateTxNextAck c.ackSn).modulusTx e.txNext =
      e.modulusTx e.txNext - e.modulusTx (e'.updateTxNextAck c.ackSn).txNextAck := by
    rw [modulusTx, hcfg]
    exact Window.offset_rebase hinv.txNext hbase hinv.txNextAck hle
  have hlt := h.lt_windowSize hopens
  rw [hnext, hcfg, hrebase]
  omega

end AfterWalk

/-- A status PDU answers the poll, leaves a segment in the wait list, or leaves something to send
in an open window. -/
def KeepsPoll (e : AmEntity) (c : ControlPdu) : Prop :=
  e.Answers c ∨ (∃ s, e.StaysWaiting c s) ∨
    e.WindowOpens c ∧ (e.txList ≠ [] ∨ ∃ s, e.StaysUnacked c s)

/-- When the poll timer runs, there is a segment in the wait list or something else to send. -/
structure PollInv (e : AmEntity) : Prop where
  snInv : e.SnInv
  waits : e.tPollRetransmitStart ≠ 0 → e.waitList ≠ [] ∨ e.checkPollAfterPduAssembly = false

theorem checkPollAfterPduAssembly_eq_false : e.checkPollAfterPduAssembly = false ↔
    (e.txList ≠ [] ∨ e.retransmitList ≠ []) ∧ e.isWindowStalling = false := by
  rw [checkPollAfterPduAssembly]
  simp [← Bool.not_eq_true, List.isEmpty_iff, imp_iff_not_or]

theorem pollInv_new (cfg : AmConfig) : (new cfg).PollInv :=
  ⟨⟨cfg.snModulus_pos, cfg.snModulus_pos, fun _ => cfg.snModulus_pos⟩, fun h => absurd rfl h⟩

/-- A status PDU that keeps the poll keeps the invariant. -/
theorem PollInv.applyControlPdu (h : e.PollInv) (hack : c.ackSn < e.cfg.snModulus)
    (hkeeps : e.tPollRetransmitStart ≠ 0 → e.KeepsPoll c) : (e.applyControlPdu c).PollInv := by
  obtain ⟨e', hwalk, heq⟩ := e.exists_afterWalk c
  rw [heq]
  refine ⟨hwalk.snInv h.snInv hack, fun htimer => ?_⟩
  change e'.tPollRetransmitStart ≠ 0 at htimer
  have hrunning : e.tPollRetransmitStart ≠ 0 := fun hzero => htimer (hwalk.agrees.stopped hzero)
  rcases hkeeps hrunning with hanswers | ⟨s, hs⟩ | ⟨hopens, hleft⟩
  · exact absurd (hwalk.stopped hanswers) htimer
  · exact .inl (List.ne_nil_of_mem (hwalk.mem_waitList hs))
  · have hstall := hwalk.isWindowStalling_eq_false h.snInv hack hopens
    rcases hleft with htx | ⟨s, hs⟩
    · refine .inr (checkPollAfterPduAssembly_eq_false.mpr ⟨.inl ?_, hstall⟩)
      change e'.txList ≠ []
      rw [hwalk.agrees.txList]
      exact htx
    · rcases hwalk.mem_waitList_or_retransmitList h.snInv hs with hmem | hmem
      · exact .inl (List.ne_nil_of_mem hmem)
      · exact .inr (checkPollAfterPduAssembly_eq_false.mpr ⟨.inr (List.ne_nil_of_mem hmem), hstall⟩)

/-! ### The other operations -/

/-- The invariant is about the transmitting side. -/
theorem PollInv.of_txSide (h : e.PollInv) (heq : e'.txSide = e.txSide) : e'.PollInv := by
  simp only [txSide, TxSide.mk.injEq] at heq
  obtain ⟨hcfg, hnext, hack, -, -, -, -, -, htimer, hsdus, -, htx, -, hwait, -, hretx, -, -⟩ := heq
  have hsn : e'.snOf = e.snOf := by
    funext s
    rw [snOf, snOf, hsdus]
  have hmod : e'.modulusTx = e.modulusTx := by
    funext a
    rw [modulusTx, modulusTx, hcfg, hack]
  have hcheck : e'.checkPollAfterPduAssembly = e.checkPollAfterPduAssembly := by
    rw [checkPollAfterPduAssembly, checkPollAfterPduAssembly, isWindowStalling, isWindowStalling,
      hmod, hcfg, hnext, hack, htx, hretx]
  refine ⟨⟨?_, ?_, fun s => ?_⟩, ?_⟩
  · rw [hnext, hcfg]
    exact h.snInv.txNext
  · rw [hack, hcfg]
    exact h.snInv.txNextAck
  · rw [hsn, hcfg]
    exact h.snInv.snOf s
  · rw [htimer, hwait, hcheck]
    exact h.waits

/-- A segment has been put into the wait list. -/
structure Sent (e : AmEntity) : Prop where
  snInv : e.SnInv
  waitList : e.waitList ≠ []

theorem Sent.pollInv (h : e.Sent) : e.PollInv := ⟨h.snInv, fun _ => .inl h.waitList⟩

theorem sent_appendWait (hinv : e.SnInv) (h : e.appendWait s = some e') : e'.Sent := by
  rw [appendWait] at h
  split at h
  · cases h
    exact ⟨⟨hinv.txNext, hinv.txNextAck, hinv.snOf⟩, by simp⟩
  · cases h
  · cases h
    exact ⟨⟨hinv.txNext, hinv.txNextAck, hinv.snOf⟩, by simp⟩

theorem sent_putInWaitList (hinv : e.SnInv) (h : e.putInWaitList s = some e') : e'.Sent := by
  rw [putInWaitList] at h
  split at h
  · exact sent_appendWait hinv h
  · split_ifs at h
    · exact sent_appendWait hinv h
    · cases h
      exact ⟨⟨hinv.txNext, hinv.txNextAck, hinv.snOf⟩, by simp [addWait, listAdd]⟩

theorem Sent.takeForcePoll (h : e.Sent) (p : Bool) : (e.takeForcePoll p).2.Sent := by
  rw [AmEntity.takeForcePoll]
  split_ifs
  · exact ⟨⟨h.snInv.txNext, h.snInv.txNextAck, h.snInv.snOf⟩, h.waitList⟩
  · exact h

/-- A poll is all that serialization changes. -/
theorem serializeSdu_cases {pdu : List UInt8} {bufsize : ℕ} {p : Bool}
    (h : e.serializeSdu s bufsize p = some (pdu, e')) : e' = e ∨ e' = e.includePoll := by
  simp only [AmEntity.serializeSdu, Option.bind_eq_bind, Option.bind_eq_some_iff] at h
  obtain ⟨_, -, _, -, _, -, _, -, _, -, _, -, _, -, h⟩ := h
  split_ifs at h
  · cases h
    exact .inr rfl
  · cases h
    exact .inl rfl

theorem Sent.serializeSdu {pdu : List UInt8} {bufsize : ℕ} {p : Bool} (hsent : e.Sent)
    (h : e.serializeSdu s bufsize p = some (pdu, e')) : e'.Sent := by
  rcases serializeSdu_cases h with rfl | rfl
  · exact hsent
  · exact ⟨⟨hsent.snInv.txNext, hsent.snInv.txNextAck, hsent.snInv.snOf⟩, hsent.waitList⟩

theorem SnInv.resegment (h : e.SnInv) (s : Segment) (pduSize : ℕ) :
    (e.resegment s pduSize).2.2.SnInv := h.of_agrees (agrees_setSdu rfl)

theorem SnInv.takeRetx (h : e.SnInv) (s : Segment) (rest : List Segment) (size : ℕ) :
    (e.takeRetx s rest size).2.SnInv := by
  rw [AmEntity.takeRetx]
  split_ifs
  · have hcut := h.resegment s size
    exact ⟨hcut.txNext, hcut.txNextAck, hcut.snOf⟩
  · exact ⟨h.txNext, h.txNextAck, h.snOf⟩

/-- The sequence number that is assigned is `tx_next`. -/
theorem SnInv.assignSn (h : e.SnInv) (s : Segment) : (e.assignSn s).SnInv := by
  rw [AmEntity.assignSn]
  split
  · exact h
  · refine ⟨Nat.mod_lt _ e.cfg.snModulus_pos, h.txNextAck, fun x => ?_⟩
    change (Function.update e.sdus s.sdu _ x.sdu).sn.getD 0 < e.cfg.snModulus
    by_cases hx : x.sdu = s.sdu
    · rw [hx, Function.update_self]
      exact h.txNext
    · rw [Function.update_of_ne hx]
      exact h.snOf x

theorem SnInv.takeTx (h : e.SnInv) (s : Segment) (rest : List Segment) (size : ℕ) :
    (e.takeTx s rest size).2.SnInv := by
  have hassigned : ({ e with
      txList := rest
      bstatusTxSize := e.bstatusTxSize - (e.computePduHeaderSize s + s.size : ℕ) }.assignSn
        s).SnInv := by
    apply SnInv.assignSn
    exact ⟨h.txNext, h.txNextAck, h.snOf⟩
  rw [AmEntity.takeTx]
  split_ifs
  · have hcut := hassigned.resegment s size
    exact ⟨hcut.txNext, hcut.txNextAck, hcut.snOf⟩
  · exact hassigned

/-- A retransmission is not sent, or is in the wait list. -/
theorem generateRetxPdu_sent {size : ℕ} {pdu : List UInt8} (hinv : e.SnInv)
    (h : e.generateRetxPdu size = some (pdu, e')) : e' = e ∨ e'.Sent := by
  rw [generateRetxPdu] at h
  split at h
  · cases h
    exact .inl rfl
  · next s rest hlist =>
    split_ifs at h
    · cases h
      exact .inl rfl
    · obtain ⟨e₁, hput, hsend⟩ := Option.bind_eq_some_iff.mp h
      have hsent : e₁.Sent := sent_putInWaitList (hinv.takeRetx s rest size) hput
      exact .inr ((hsent.takeForcePoll _).serializeSdu hsend)

/-- A new segment is not sent, or is in the wait list. -/
theorem generateTxPdu_sent {size : ℕ} {pdu : List UInt8} (hinv : e.SnInv)
    (h : e.generateTxPdu size = some (pdu, e')) : e' = e ∨ e'.Sent := by
  rw [generateTxPdu] at h
  split_ifs at h
  · cases h
    exact .inl rfl
  · split at h
    · cases h
      exact .inl rfl
    · next s rest hlist =>
      split_ifs at h
      · cases h
        exact .inl rfl
      · obtain ⟨e₁, hput, hsend⟩ := Option.bind_eq_some_iff.mp h
        have hsent : e₁.Sent := sent_putInWaitList (hinv.takeTx s rest size) hput
        have hcount : { e₁ with
            pduWithoutPoll := e₁.pduWithoutPoll + 1
            byteWithoutPoll := e₁.byteWithoutPoll + (e.takeTx s rest size).1.size }.Sent :=
          ⟨⟨hsent.snInv.txNext, hsent.snInv.txNextAck, hsent.snInv.snOf⟩, hsent.waitList⟩
        exact .inr ((hcount.takeForcePoll _).serializeSdu hsend)

/-- A status PDU of the entity itself changes nothing of the transmitting side. -/
theorem txSide_generateStatus {size : ℕ} {pdu : List UInt8}
    (h : e.generateStatus fuel size = some (pdu, e')) : e'.txSide = e.txSide := by
  rw [generateStatus] at h
  by_cases hsize : size < 3
  · rw [if_pos hsize] at h
    cases h
    rfl
  · rw [if_neg hsize] at h
    obtain ⟨_, -, h⟩ := Option.bind_eq_some_iff.mp h
    obtain ⟨_, -, h⟩ := Option.bind_eq_some_iff.mp h
    cases h
    rfl

theorem PollInv.generatePdu {size : ℕ} {pdu : List UInt8} (h : e.PollInv)
    (he : e.generatePdu fuel size = some (pdu, e')) : e'.PollInv := by
  obtain ⟨⟨pdu₁, e₁⟩, hstatus, he⟩ := Option.bind_eq_some_iff.mp he
  have h₁ : e₁.PollInv := by
    split_ifs at hstatus
    · exact h.of_txSide (txSide_generateStatus hstatus)
    · cases hstatus
      exact h
  dsimp only at he
  split_ifs at he
  · cases he
    exact h₁
  · obtain ⟨⟨pdu₂, e₂⟩, hretx, he⟩ := Option.bind_eq_some_iff.mp he
    have h₂ : e₂.PollInv := by
      rcases generateRetxPdu_sent h₁.snInv hretx with rfl | hsent
      · exact h₁
      · exact hsent.pollInv
    dsimp only at he
    split_ifs at he
    · cases he
      exact h₂
    · rcases generateTxPdu_sent h₂.snInv he with rfl | hsent
      · exact h₂
      · exact hsent.pollInv

theorem PollInv.recvSdu {buffer : List UInt8} {sduId : ℕ} (h : e.PollInv)
    (he : e.recvSdu buffer sduId = some e') : e'.PollInv := by
  rw [AmEntity.recvSdu] at he
  split_ifs at he
  · cases he
    exact h
  · cases he
    refine ⟨⟨h.snInv.txNext, h.snInv.txNextAck, fun x => ?_⟩, fun htimer => ?_⟩
    · change (Function.update e.sdus e.sduCount _ x.sdu).sn.getD 0 < e.cfg.snModulus
      by_cases hx : x.sdu = e.sduCount
      · rw [hx, Function.update_self]
        exact e.cfg.snModulus_pos
      · rw [Function.update_of_ne hx]
        exact h.snInv.snOf x
    · refine (h.waits htimer).imp_right fun hcheck => ?_
      obtain ⟨-, hstall⟩ := checkPollAfterPduAssembly_eq_false.mp hcheck
      refine checkPollAfterPduAssembly_eq_false.mpr ⟨.inl ?_, hstall⟩
      simp

theorem agrees_retransmitFrom (sn : ℕ) (l : List Segment) : e.Agrees (retransmitFrom sn l e) := by
  induction l generalizing e with
  | nil => exact .refl e
  | cons cur rest ih =>
    rw [retransmitFrom]
    by_cases hcur : e.snOf cur = sn
    · rw [if_pos hcur]
      refine Agrees.trans ?_ ih
      exact ⟨rfl, rfl, rfl, rfl, rfl, rfl, .inl rfl⟩
    · rw [if_neg hcur]
      exact .refl e

theorem agrees_retransmitFirst (h : e.retransmitFirst = some e') : e.Agrees e' := by
  rw [retransmitFirst] at h
  split at h
  · cases h
  · next cur rest hlist =>
    have hcount : e.Agrees (e.setSdu cur.sdu
        { e.sdus cur.sdu with retxCount := (e.sdus cur.sdu).retxCount + 1 }) := agrees_setSdu rfl
    cases h
    split_ifs
    · exact (hcount.trans (agrees_retransmitFrom _ _)).trans agrees_call
    · exact hcount.trans (agrees_retransmitFrom _ _)

/-- A poll timer that expires is stopped. -/
theorem PollInv.checkTPollRetransmit {now : ℕ} (h : e.PollInv)
    (he : { e with tCurrent := now }.checkTPollRetransmit = some e') : e'.PollInv := by
  have hexpire : (expirePollRetransmit { e with tCurrent := now }).SnInv :=
    ⟨h.snInv.txNext, h.snInv.txNextAck, h.snInv.snOf⟩
  rw [AmEntity.checkTPollRetransmit] at he
  split_ifs at he
  · cases he
    exact ⟨⟨h.snInv.txNext, h.snInv.txNextAck, h.snInv.snOf⟩, h.waits⟩
  · cases he
    exact ⟨hexpire, fun htimer => absurd rfl htimer⟩
  · have hagrees := agrees_retransmitFirst he
    exact ⟨hexpire.of_agrees hagrees, fun htimer => absurd (hagrees.stopped rfl) htimer⟩

theorem PollInv.setTime {now : ℕ} (h : e.PollInv) (he : e.setTime fuel now = some e') :
    e'.PollInv := by
  obtain ⟨e₁, hpoll, he⟩ := Option.bind_eq_some_iff.mp he
  exact (h.checkTPollRetransmit hpoll).of_txSide (txSide_checkTReassembly he)

def acceptedStatus (e : AmEntity) (buffer : List UInt8) : Option ControlPdu :=
  match (Decoder.init buffer).getBits 1 with
  | some (0, _) => (decodeControlPdu e.cfg buffer).filter e.validControlPdu
  | _ => none

/-- A PDU leaves the transmitting side alone, or is a status PDU that is applied. -/
theorem recvPdu_cases {buffer : List UInt8} (h : e.recvPdu fuel buffer = some e') :
    e'.txSide = e.txSide ∨ ∃ c, e.acceptedStatus buffer = some c ∧
      c.ackSn < e.cfg.snModulus ∧ e' = e.applyControlPdu c := by
  rw [recvPdu] at h
  split at h
  · cases h
    exact .inl rfl
  · next dc d hdc =>
    split_ifs at h with hzero
    · subst hzero
      cases h
      rw [processControlPdu]
      split
      · exact .inl rfl
      · next c hc =>
        split_ifs with hvalid
        · refine .inr ⟨c, ?_, ackSn_lt hc, rfl⟩
          simp only [acceptedStatus, hdc, hc]
          exact Option.filter_some_pos hvalid
        · exact .inl rfl
    · exact .inl (txSide_recvDataPdu h)

/-! ### Runs -/

/-- The poll timer does not expire on an empty wait list when there is nothing else to send, so the
list is not dereferenced. -/
def PollSafe (e : AmEntity) : Prop := ∀ now,
  (pollRetransmitExpired { e with tCurrent := now } = true → e.checkPollAfterPduAssembly = true →
    e.waitList ≠ []) ∧
  checkTPollRetransmit { e with tCurrent := now } ≠ none

/-- A status PDU that is applied while the poll timer runs keeps the poll. -/
def PollKept (e : AmEntity) : AmOp → Prop
  | .recvPdu buffer => ∀ c, e.acceptedStatus buffer = some c → e.tPollRetransmitStart ≠ 0 →
      e.KeepsPoll c
  | _ => True

end AmEntity

/-- An operation of the transmitting or of the receiving side; `discard_sdu` is neither. -/
def AmOp.IsTransfer : AmOp → Prop
  | .discardSdu _ => False
  | _ => True

/-- In every state that transfers reach, the poll timer is safe. -/
def PollTimerSafe : Prop :=
  ∀ cfg ops e, AmRun cfg ops e → (∀ op ∈ ops, op.IsTransfer) → e.PollSafe

/-- Transfers whose status PDUs keep the poll. -/
abbrev PollRun (cfg : AmConfig) (ops : List AmOp) (e : AmEntity) : Prop :=
  Run.Reach (fun op e e' => op.IsTransfer ∧ e.PollKept op ∧ ∃ fuel, e.op fuel op = some e')
    (· = AmEntity.new cfg) ops e

namespace AmEntity

variable {e e' : AmEntity}

/-- Every operation whose status PDU keeps the poll keeps the invariant. -/
theorem PollInv.op {op : AmOp} {fuel : ℕ} (h : e.PollInv) (htransfer : op.IsTransfer)
    (hkept : e.PollKept op)
    (he : e.op fuel op = some e') : e'.PollInv := by
  cases op with
  | recvSdu buffer sduId => exact h.recvSdu he
  | generatePdu size =>
    obtain ⟨⟨pdu, e₁⟩, hpdu, rfl⟩ := Option.map_eq_some_iff.mp he
    exact h.generatePdu hpdu
  | recvPdu buffer =>
    rcases recvPdu_cases he with hside | ⟨c, hc, hack, rfl⟩
    · exact h.of_txSide hside
    · exact h.applyControlPdu hack (hkept c hc)
  | setTime now => exact h.setTime he
  | discardSdu sduId => exact htransfer.elim

theorem retransmitFirst_eq_none : e.retransmitFirst = none ↔ e.waitList = [] := by
  rw [retransmitFirst]
  split
  · next hlist => simp [hlist]
  · next hlist => simp [hlist]

/-- When the timer check dereferences an empty list. -/
theorem checkTPollRetransmit_eq_none : e.checkTPollRetransmit = none ↔
    e.pollRetransmitExpired = true ∧ e.checkPollAfterPduAssembly = true ∧ e.waitList = [] := by
  rw [checkTPollRetransmit]
  split_ifs with hexpired hcheck
  · simp [hexpired]
  · have hcheck' : e.checkPollAfterPduAssembly = false := hcheck
    simp [hcheck']
  · have hcheck' : ¬ e.checkPollAfterPduAssembly = false := hcheck
    rw [retransmitFirst_eq_none, ← Bool.not_eq_false, ← Bool.not_eq_false]
    exact ⟨fun hnil => ⟨hexpired, hcheck', hnil⟩, fun h => h.2.2⟩

theorem PollInv.pollSafe (h : e.PollInv) : e.PollSafe := by
  intro now
  have hwait : pollRetransmitExpired { e with tCurrent := now } = true →
      e.checkPollAfterPduAssembly = true → e.waitList ≠ [] := by
    intro hexpired hcheck
    have htimer : e.tPollRetransmitStart ≠ 0 := (of_decide_eq_true hexpired).1
    exact (h.waits htimer).resolve_right (by simp [hcheck])
  refine ⟨hwait, fun hnone => ?_⟩
  obtain ⟨hexpired, hcheck, hnil⟩ := checkTPollRetransmit_eq_none.mp hnone
  exact hwait hexpired hcheck hnil

end AmEntity

/-- In every run whose status PDUs keep the poll, the poll timer is safe. -/
theorem pollSafe_of_run (cfg : AmConfig) (ops : List AmOp) (e : AmEntity)
    (h : PollRun cfg ops e) : e.PollSafe := by
  have hinv : e.PollInv := by
    refine h.invariant ?_ ?_
    · rintro e rfl
      exact AmEntity.pollInv_new cfg
    · rintro op e e' hinv ⟨htransfer, hkept, fuel, he⟩
      exact hinv.op htransfer hkept he
  exact hinv.pollSafe

/-- An SDU is sent with a poll. -/
def pollOps : List AmOp := [.setTime 1, .recvSdu [0] 0, .generatePdu 100]

/-- A status PDU that does not acknowledge the SDU leaves it in the wait list, and the timer goes on
running. -/
theorem pollSafe_polled : ∃ e, PollRun exampleCfg (pollOps ++ [.recvPdu [0, 0, 0]]) e ∧
    e.tPollRetransmitStart = 1 ∧ e.PollSafe := by
  set s : Segment := ⟨0, 1, 0, true, true⟩
  obtain ⟨e, he, hstate⟩ : ∃ e, pollOps.foldlM (AmEntity.op 1) (.new exampleCfg) = some e ∧
      (e.waitList, e.modulusTx 0, e.acceptedStatus [0, 0, 0], (e.recvPdu 1 [0, 0, 0]).map
        (·.tPollRetransmitStart)) = ([s], 0, some ⟨0, []⟩, some 1) := ⟨_, rfl, rfl⟩
  simp only [Prod.mk.injEq] at hstate
  obtain ⟨hwait, hzero, hstatus, hrecv⟩ := hstate
  obtain ⟨e', he', htimer⟩ := Option.map_eq_some_iff.mp hrecv
  have hnew : PollRun exampleCfg [] (.new exampleCfg) := .start rfl
  have hrun : PollRun exampleCfg pollOps e := by
    refine hnew.append_foldlM ?_ he
    intro op hop e e' h
    simp only [List.mem_cons, List.not_mem_nil, or_false] at hop
    rcases hop with rfl | rfl | rfl <;> exact ⟨trivial, trivial, 1, h⟩
  have hkept : e.PollKept (.recvPdu [0, 0, 0]) := by
    intro c hc _
    obtain rfl : (⟨0, []⟩ : ControlPdu) = c := Option.some.inj (hstatus.symm.trans hc)
    refine .inr (.inl ⟨s, ?_, ?_, fun n hn => absurd hn List.not_mem_nil⟩)
    · simp [hwait]
    · simp [hzero]
  have hrun' : PollRun exampleCfg (pollOps ++ [.recvPdu [0, 0, 0]]) e' :=
    hrun.step ⟨trivial, hkept, 1, he'⟩
  exact ⟨e', hrun', htimer, pollSafe_of_run _ _ _ hrun'⟩

/-- Two SDUs are sent; the first one is reported as missing and sent again with a poll. The next
status PDU acknowledges it alone, and not `POLL_SN`. -/
def staleStatusOps : List AmOp :=
  [.setTime 1, .recvSdu [0] 0, .recvSdu [0] 1, .generatePdu 100, .generatePdu 100,
    .recvPdu [0, 2, 128, 0, 0], .generatePdu 100, .recvPdu [0, 1, 0]]

/-- The wait list is empty, and the poll timer still runs. -/
theorem not_pollTimerSafe : ¬ PollTimerSafe := by
  intro hsafe
  obtain ⟨e, he, hstate⟩ :
      ∃ e, staleStatusOps.foldlM (AmEntity.op 1) (.new exampleCfg) = some e ∧
        (e.waitList, e.checkPollAfterPduAssembly, e.tPollRetransmitStart, e.cfg) =
          ([], true, 1, exampleCfg) := ⟨_, rfl, rfl⟩
  simp only [Prod.mk.injEq] at hstate
  obtain ⟨hwait, hcheck, htimer, hcfg⟩ := hstate
  have hnew : AmRun exampleCfg [] (.new exampleCfg) := .start rfl
  have hrun : AmRun exampleCfg staleStatusOps e :=
    hnew.append_foldlM (fun _ _ _ _ h => ⟨1, h⟩) he
  have hops : ∀ op ∈ staleStatusOps, op.IsTransfer := by
    simp [staleStatusOps, AmOp.IsTransfer]
  refine (hsafe _ _ _ hrun hops 47).1 ?_ hcheck hwait
  simp [AmEntity.pollRetransmitExpired, htimer, hcfg, exampleCfg]

end LlmHric.Rlc
