import LlmHric.Rlc.PollTimer

/-! Sending, status PDUs and the poll timer leave the variables and the slots of the receiving side
as they are. -/

namespace LlmHric.Rlc

namespace AmEntity

variable {e e' : AmEntity} {s : Segment} {fuel size : ℕ} {pdu : List UInt8}

/-- The variables of the window and the slots. -/
def windowSide (e : AmEntity) : AmConfig × ℕ × ℕ × ℕ × RxManager :=
  (e.cfg, e.rxNext, e.rxHighestStatus, e.rxNextHighest, e.rx)

/-- `t_reassembly` and its trigger. -/
def reassemblyTimer (e : AmEntity) : ℕ × ℕ := (e.tReassemblyStart, e.rxNextStatusTrigger)

/-- The window with its timer. -/
def receiveSide (e : AmEntity) : (AmConfig × ℕ × ℕ × ℕ × RxManager) × ℕ × ℕ :=
  (e.windowSide, e.reassemblyTimer)

/-! ### Status PDUs -/

theorem receiveSide_ackSegment : (e.ackSegment s).receiveSide = e.receiveSide := by
  rw [ackSegment]
  split_ifs <;> rfl

theorem receiveSide_nackSegment : (e.nackSegment s).receiveSide = e.receiveSide := by
  rw [nackSegment]
  split_ifs <;> rfl

theorem receiveSide_ackRetxSegment : (e.ackRetxSegment s).receiveSide = e.receiveSide :=
  receiveSide_ackSegment

theorem receiveSide_step {n : Nack} {ackSn : ℕ} {c : Scan} :
    (c.step n ackSn).scan.e.receiveSide = c.e.receiveSide := by
  refine Scan.step_cases (P := fun next => next.scan.e.receiveSide = c.e.receiveSide)
    (fun _ _ => rfl) (fun s rest _ _ => ?_) fun s rest _ _ => ?_
  · rw [Scan.waitHead]
    split_ifs
    · exact receiveSide_nackSegment
    · rfl
    · exact receiveSide_ackSegment
    · rfl
    · rfl
  · rw [Scan.retxHead]
    split_ifs
    · rfl
    · rfl
    · exact receiveSide_ackRetxSegment
    · rfl
    · rfl

theorem receiveSide_walk {ackSn : ℕ} {nacks : List NackRange} {c : Scan} :
    (nacks.foldl (Scan.processRange ackSn) c).e.receiveSide = c.e.receiveSide := by
  induction nacks generalizing c with
  | nil => rfl
  | cons r nacks ih =>
    refine ih.trans ?_
    have hnacks := @Scan.processNacks_invariant c ackSn
      (fun c' => c'.e.receiveSide = c.e.receiveSide) (r.expand c.e.cfg.snModulus)
      (fun _ _ _ h => receiveSide_step.trans h) rfl
    refine Eq.trans ?_ hnacks
    change (Scan.stopPoll r _).receiveSide = _
    rw [Scan.stopPoll]
    split_ifs <;> rfl

theorem receiveSide_ackWait {ackSn : ℕ} {l : List Segment} {c : Scan} :
    (c.ackWait ackSn l).e.receiveSide = c.e.receiveSide := by
  induction l generalizing c with
  | nil => rfl
  | cons s l ih =>
    rw [Scan.ackWait]
    split_ifs
    · exact ih.trans receiveSide_ackSegment
    · rfl

theorem receiveSide_ackRetx {ackSn : ℕ} {l : List Segment} {c : Scan} :
    (c.ackRetx ackSn l).e.receiveSide = c.e.receiveSide := by
  induction l generalizing c with
  | nil => rfl
  | cons s l ih =>
    rw [Scan.ackRetx]
    split_ifs
    · exact ih.trans receiveSide_ackRetxSegment
    · rfl

theorem receiveSide_applyControlPdu (c : ControlPdu) :
    (e.applyControlPdu c).receiveSide = e.receiveSide := by
  rw [applyControlPdu]
  refine (receiveSide_ackRetx.trans (receiveSide_ackWait.trans receiveSide_walk)).trans ?_
  change receiveSide (if _ then _ else _) = _
  split_ifs <;> rfl

/-! ### Sending -/

theorem receiveSide_putInWaitList (h : e.putInWaitList s = some e') :
    e'.receiveSide = e.receiveSide := by
  have happend : ∀ {e'}, e.appendWait s = some e' → e'.receiveSide = e.receiveSide := by
    intro e' h
    rw [appendWait] at h
    split at h
    · cases h
      rfl
    · cases h
    · cases h
      rfl
  rw [putInWaitList] at h
  split at h
  · exact happend h
  · split_ifs at h
    · exact happend h
    · cases h
      rfl

theorem receiveSide_send {p : Bool} (h : (e.takeForcePoll p).2.serializeSdu s size
    (e.takeForcePoll p).1 = some (pdu, e')) : e'.receiveSide = e.receiveSide := by
  have htake : (e.takeForcePoll p).2.receiveSide = e.receiveSide := by
    rw [takeForcePoll]
    split_ifs <;> rfl
  rcases serializeSdu_cases h with rfl | rfl
  · exact htake
  · exact htake

theorem receiveSide_takeRetx (rest : List Segment) :
    (e.takeRetx s rest size).2.receiveSide = e.receiveSide := by
  rw [takeRetx]
  split_ifs <;> rfl

theorem receiveSide_takeTx (rest : List Segment) :
    (e.takeTx s rest size).2.receiveSide = e.receiveSide := by
  have hassign : ∀ e : AmEntity, (e.assignSn s).receiveSide = e.receiveSide := by
    intro e
    rw [assignSn]
    split <;> rfl
  rw [takeTx]
  split_ifs
  · exact hassign _
  · exact hassign _

theorem receiveSide_generateRetxPdu (h : e.generateRetxPdu size = some (pdu, e')) :
    e'.receiveSide = e.receiveSide := by
  rw [generateRetxPdu] at h
  split at h
  · cases h
    rfl
  · split_ifs at h
    · cases h
      rfl
    · obtain ⟨e₁, hput, h⟩ := Option.bind_eq_some_iff.mp h
      exact (receiveSide_send h).trans ((receiveSide_putInWaitList hput).trans
        (receiveSide_takeRetx _))

theorem receiveSide_generateTxPdu (h : e.generateTxPdu size = some (pdu, e')) :
    e'.receiveSide = e.receiveSide := by
  rw [generateTxPdu] at h
  split_ifs at h
  · cases h
    rfl
  split at h
  · cases h
    rfl
  · split_ifs at h
    · cases h
      rfl
    · obtain ⟨e₁, hput, h⟩ := Option.bind_eq_some_iff.mp h
      exact (receiveSide_send h).trans
        ((receiveSide_putInWaitList hput).trans (receiveSide_takeTx _))

theorem receiveSide_generateStatus (h : e.generateStatus fuel size = some (pdu, e')) :
    e'.receiveSide = e.receiveSide := by
  rw [generateStatus] at h
  by_cases hsmall : size < 3
  · rw [if_pos hsmall] at h
    cases h
    rfl
  · rw [if_neg hsmall] at h
    obtain ⟨c, -, h⟩ := Option.bind_eq_some_iff.mp h
    obtain ⟨r, -, h⟩ := Option.bind_eq_some_iff.mp h
    cases h
    rfl

theorem receiveSide_generatePdu (h : e.generatePdu fuel size = some (pdu, e')) :
    e'.receiveSide = e.receiveSide := by
  obtain ⟨⟨pdu₁, e₁⟩, hstatus, h⟩ := Option.bind_eq_some_iff.mp h
  have h₁ : e₁.receiveSide = e.receiveSide := by
    split_ifs at hstatus
    · exact receiveSide_generateStatus hstatus
    · cases hstatus
      rfl
  dsimp only at h
  split_ifs at h
  · cases h
    exact h₁
  · obtain ⟨⟨pdu₂, e₂⟩, hretx, h⟩ := Option.bind_eq_some_iff.mp h
    have h₂ := (receiveSide_generateRetxPdu hretx).trans h₁
    dsimp only at h
    split_ifs at h
    · cases h
      exact h₂
    · exact (receiveSide_generateTxPdu h).trans h₂

theorem receiveSide_recvSdu {buffer : List UInt8} {sduId : ℕ}
    (h : e.recvSdu buffer sduId = some e') : e'.receiveSide = e.receiveSide := by
  rw [recvSdu] at h
  split_ifs at h <;> cases h <;> rfl

theorem receiveSide_discardSdu (sduId : ℕ) :
    (e.discardSdu sduId).receiveSide = e.receiveSide := by
  rw [discardSdu]
  split
  · rfl
  · split_ifs <;> rfl

theorem receiveSide_retransmitFrom (sn : ℕ) (l : List Segment) :
    (retransmitFrom sn l e).receiveSide = e.receiveSide := by
  induction l generalizing e with
  | nil => rfl
  | cons cur rest ih =>
    rw [retransmitFrom]
    by_cases hcur : e.snOf cur = sn
    · rw [if_pos hcur]
      exact ih
    · rw [if_neg hcur]

theorem receiveSide_checkTPollRetransmit (h : e.checkTPollRetransmit = some e') :
    e'.receiveSide = e.receiveSide := by
  rw [checkTPollRetransmit] at h
  split_ifs at h
  · cases h
    rfl
  · cases h
    rfl
  · rw [retransmitFirst] at h
    split at h
    · cases h
    · cases h
      split_ifs
      · exact receiveSide_retransmitFrom _ _
      · exact receiveSide_retransmitFrom _ _

end AmEntity

end LlmHric.Rlc
