import LlmHric.Rlc.NackOrder

/-! Sending takes a segment from the head of a list, cuts off what does not fit, and puts the
segment into the wait list. The poll timer moves the segments at the head of the wait list to the
retransmit list, one after the other. What else these operations change is of no concern to the
segments. -/

namespace LlmHric.Rlc

namespace AmEntity

variable {e e' : AmEntity} {s : Segment} {fuel : ℕ}

/-- The segments of an entity and what is counted about them. -/
structure TxLists where
  cfg : AmConfig
  txNext : ℕ
  txNextAck : ℕ
  sdus : ℕ → Sdu
  sduCount : ℕ
  txList : List Segment
  txSize : ℤ
  waitList : List Segment
  waitEnd : Option ℕ
  retransmitList : List Segment
  bstatusTxSize : ℤ
  bstatusRetxSize : ℤ

/-- The segments of an entity and what is counted about them. -/
def txLists (e : AmEntity) : TxLists :=
  ⟨e.cfg, e.txNext, e.txNextAck, e.sdus, e.sduCount, e.txList, e.txSize, e.waitList, e.waitEnd,
    e.retransmitList, e.bstatusTxSize, e.bstatusRetxSize⟩

theorem txLists_of_txSide (h : e'.txSide = e.txSide) : e'.txLists = e.txLists := by
  simp only [txSide, TxSide.mk.injEq] at h
  simp only [txLists, TxLists.mk.injEq]
  tauto

theorem txLists_takeForcePoll (p : Bool) : (e.takeForcePoll p).2.txLists = e.txLists := by
  rw [takeForcePoll]
  split_ifs <;> rfl

theorem txLists_serializeSdu {pdu : List UInt8} {bufsize : ℕ} {p : Bool}
    (h : e.serializeSdu s bufsize p = some (pdu, e')) : e'.txLists = e.txLists := by
  rcases serializeSdu_cases h with rfl | rfl <;> rfl

theorem perm_listAdd (s : Segment) (l : List Segment) : (e.listAdd s l).Perm (s :: l) := by
  have hsplit : l.take (e.listAddPos s l) ++ l.drop (e.listAddPos s l) = l :=
    List.take_append_drop _ _
  rw [listAdd]
  refine List.perm_middle.trans ?_
  rw [hsplit]

theorem putInWaitList_cases (h : e.putInWaitList s = some e') :
    ∃ waitList waitEnd, e' = { e with waitList, waitEnd } := by
  have happend : ∀ e', e.appendWait s = some e' →
      ∃ waitList waitEnd, e' = { e with waitList, waitEnd } := by
    intro e' h
    rw [appendWait] at h
    split at h
    · exact ⟨_, _, (Option.some.inj h).symm⟩
    · cases h
    · exact ⟨_, _, (Option.some.inj h).symm⟩
  rw [putInWaitList] at h
  split at h
  · exact happend e' h
  · split_ifs at h
    · exact happend e' h
    · exact ⟨_, _, (Option.some.inj h).symm⟩

/-- No segment comes twice into the wait list; the ones behind `wait_end` may get lost. -/
theorem subperm_putInWaitList (h : e.putInWaitList s = some e') :
    e'.waitList.Subperm (s :: e.waitList) := by
  have happend : ∀ e', e.appendWait s = some e' → e'.waitList.Subperm (s :: e.waitList) := by
    intro e' h
    rw [appendWait] at h
    split at h
    · next hlist =>
      obtain rfl := Option.some.inj h
      rw [hlist]
    · cases h
    · next i hlist hend =>
      obtain rfl := Option.some.inj h
      change (e.waitList.take (i + 1) ++ [s]).Subperm (s :: e.waitList)
      refine (List.perm_append_singleton s _).subperm.trans ?_
      exact ((List.take_sublist _ _).cons_cons s).subperm
  rw [putInWaitList] at h
  split at h
  · exact happend e' h
  · split_ifs at h
    · exact happend e' h
    · obtain rfl := Option.some.inj h
      exact (perm_listAdd s e.waitList).subperm

/-! ### Sending -/

/-- The part of a segment that is sent, and the part that stays in its list. -/
def cutSegment (e : AmEntity) (s : Segment) (size : ℕ) : Segment × List Segment :=
  if e.computePduHeaderSize s + s.size > size then
    ((e.resegment s size).1, [(e.resegment s size).2.1])
  else (s, [])

/-- An SDU gets another segment when a part of a segment stays. -/
def shareSdu (sdus : ℕ → Sdu) (i : ℕ) : List Segment → ℕ → Sdu
  | [] => sdus
  | _ :: _ => Function.update sdus i { sdus i with refCount := (sdus i).refCount + 1 }

def pduSizes (e : AmEntity) (l : List Segment) : ℤ :=
  (l.map fun s => ((e.computePduHeaderSize s + s.size : ℕ) : ℤ)).sum

theorem pduSizes_nil : e.pduSizes [] = 0 := rfl

theorem pduSizes_singleton (x : Segment) :
    e.pduSizes [x] = e.computePduHeaderSize x + x.size := by
  simp [pduSizes]

theorem takeRetx_eq (e : AmEntity) (s : Segment) (rest : List Segment) (size : ℕ) :
    e.takeRetx s rest size = ((e.cutSegment s size).1, { e with
      sdus := shareSdu e.sdus s.sdu (e.cutSegment s size).2
      retransmitList := (e.cutSegment s size).2 ++ rest
      bstatusRetxSize := e.bstatusRetxSize - (e.computePduHeaderSize s + s.size : ℕ) +
        e.pduSizes (e.cutSegment s size).2 }) := by
  rw [takeRetx, cutSegment]
  split_ifs with hcut
  · rw [pduSizes_singleton, ← Int.add_assoc]
    rfl
  · rw [pduSizes_nil, Int.add_zero]
    rfl

theorem takeTx_eq (e : AmEntity) (s : Segment) (rest : List Segment) (size : ℕ) :
    e.takeTx s rest size = ((e.cutSegment s size).1, { e.assignSn s with
      sdus := shareSdu (e.assignSn s).sdus s.sdu (e.cutSegment s size).2
      txList := (e.cutSegment s size).2 ++ rest
      bstatusTxSize := e.bstatusTxSize - (e.computePduHeaderSize s + s.size : ℕ) +
        e.pduSizes (e.cutSegment s size).2 }) := by
  rw [cutSegment]
  cases hsn : (e.sdus s.sdu).sn with
  | none =>
    simp only [takeTx, assignSn, hsn]
    split_ifs with hcut
    · rw [pduSizes_singleton, ← Int.add_assoc]
      rfl
    · rw [pduSizes_nil, Int.add_zero]
      rfl
  | some sn =>
    simp only [takeTx, assignSn, hsn]
    split_ifs with hcut
    · rw [pduSizes_singleton, ← Int.add_assoc]
      rfl
    · rw [pduSizes_nil, Int.add_zero]
      rfl

/-- A segment is taken from the retransmit list or from the transmit list and put into the wait
list. -/
inductive Sends (e : AmEntity) (size : ℕ) (e' : AmEntity) : Prop
  | nothing : e'.txLists = e.txLists → Sends e size e'
  | retx (s : Segment) (rest : List Segment) (e₁ : AmEntity) : e.retransmitList = s :: rest →
      e.computePduHeaderSize s + 1 ≤ size →
      (e.takeRetx s rest size).2.putInWaitList (e.takeRetx s rest size).1 = some e₁ →
      e'.txLists = e₁.txLists → Sends e size e'
  | tx (s : Segment) (rest : List Segment) (e₁ : AmEntity) : e.isWindowStalling = false →
      e.txList = s :: rest → e.computePduHeaderSize s + 1 ≤ size →
      (e.takeTx s rest size).2.putInWaitList (e.takeTx s rest size).1 = some e₁ →
      e'.txLists = e₁.txLists → Sends e size e'

theorem sends_generateRetxPdu {size : ℕ} {pdu : List UInt8}
    (h : e.generateRetxPdu size = some (pdu, e')) : e.Sends size e' := by
  rw [generateRetxPdu] at h
  split at h
  · cases h
    exact .nothing rfl
  · next s rest hlist =>
    split_ifs at h with hroom
    · cases h
      exact .nothing rfl
    · obtain ⟨e₁, hput, hsend⟩ := Option.bind_eq_some_iff.mp h
      refine .retx s rest e₁ hlist (Nat.not_lt.mp hroom) hput ?_
      exact (txLists_serializeSdu hsend).trans (txLists_takeForcePoll _)

theorem sends_generateTxPdu {size : ℕ} {pdu : List UInt8}
    (h : e.generateTxPdu size = some (pdu, e')) : e.Sends size e' := by
  rw [generateTxPdu] at h
  split_ifs at h with hstall
  · cases h
    exact .nothing rfl
  · split at h
    · cases h
      exact .nothing rfl
    · next s rest hlist =>
      split_ifs at h with hroom
      · cases h
        exact .nothing rfl
      · obtain ⟨e₁, hput, hsend⟩ := Option.bind_eq_some_iff.mp h
        refine .tx s rest e₁ (Bool.not_eq_true _ ▸ hstall) hlist (Nat.not_lt.mp hroom) hput ?_
        exact (txLists_serializeSdu hsend).trans (txLists_takeForcePoll _)

/-- What depends on the segments alone and is kept by sending is kept by `generate_pdu`. -/
theorem generatePdu_invariant {I : AmEntity → Prop} {size : ℕ} {pdu : List UInt8}
    (hcongr : ∀ e e' : AmEntity, e'.txLists = e.txLists → I e → I e')
    (hsends : ∀ e e' : AmEntity, e.Sends size e' → I e → I e') (h : I e)
    (he : e.generatePdu fuel size = some (pdu, e')) : I e' := by
  obtain ⟨⟨pdu₁, e₁⟩, hstatus, he⟩ := Option.bind_eq_some_iff.mp he
  have h₁ : I e₁ := by
    split_ifs at hstatus
    · exact hcongr e e₁ (txLists_of_txSide (txSide_generateStatus hstatus)) h
    · cases hstatus
      exact h
  dsimp only at he
  split_ifs at he
  · cases he
    exact h₁
  · obtain ⟨⟨pdu₂, e₂⟩, hretx, he⟩ := Option.bind_eq_some_iff.mp he
    have h₂ : I e₂ := hsends e₁ e₂ (sends_generateRetxPdu hretx) h₁
    dsimp only at he
    split_ifs at he
    · cases he
      exact h₂
    · exact hsends e₂ e' (sends_generateTxPdu he) h₂

/-- The first segment of the wait list goes to the retransmit list. -/
def moveHead (e : AmEntity) (cur : Segment) (rest : List Segment) : AmEntity :=
  { e with
    waitList := rest
    waitEnd := if rest.isEmpty then none else e.waitEnd.map (· - 1)
    bstatusRetxSize := e.bstatusRetxSize + e.computePduHeaderSize cur + cur.size
    retransmitList := e.listAdd cur e.retransmitList }

theorem retransmitFrom_invariant {I : AmEntity → Prop} (sn : ℕ) {l : List Segment}
    (hmove : ∀ (e : AmEntity) (cur : Segment) (rest : List Segment), e.waitList = cur :: rest →
      I e → I (e.moveHead cur rest))
    (hl : e.waitList = l) (h : I e) : I (retransmitFrom sn l e) := by
  induction l generalizing e with
  | nil => exact h
  | cons cur rest ih =>
    rw [retransmitFrom]
    by_cases hcur : e.snOf cur = sn
    · rw [if_pos hcur]
      exact ih (e := e.moveHead cur rest) rfl (hmove e cur rest hl h)
    · rw [if_neg hcur]
      exact h

/-- What depends on the segments alone, does not mind `retx_count` and is kept by moving segments is
kept by `set_time`. -/
theorem setTime_invariant {I : AmEntity → Prop} {now : ℕ}
    (hcongr : ∀ e e' : AmEntity, e'.txLists = e.txLists → I e → I e')
    (hcount : ∀ (e : AmEntity) (i : ℕ) (retxCount : ℤ), I e →
      I (e.setSdu i { e.sdus i with retxCount }))
    (hmove : ∀ (e : AmEntity) (cur : Segment) (rest : List Segment), e.waitList = cur :: rest →
      I e → I (e.moveHead cur rest))
    (h : I e) (he : e.setTime fuel now = some e') : I e' := by
  obtain ⟨e₁, hpoll, he⟩ := Option.bind_eq_some_iff.mp he
  refine hcongr e₁ e' (txLists_of_txSide (txSide_checkTReassembly he)) ?_
  have hcall : ∀ (e : AmEntity) call, I e → I (e.call call) := fun e _ => hcongr e _ rfl
  have hexpired : I (expirePollRetransmit { e with tCurrent := now }) := hcongr e _ rfl h
  rw [checkTPollRetransmit] at hpoll
  split_ifs at hpoll
  · cases hpoll
    exact hcongr e _ rfl h
  · cases hpoll
    exact hexpired
  · rw [retransmitFirst] at hpoll
    split at hpoll
    · cases hpoll
    · next cur rest hlist =>
      have hmoved := fun sn => retransmitFrom_invariant sn hmove rfl
        (hcount _ cur.sdu ((e.sdus cur.sdu).retxCount + 1) hexpired)
      cases hpoll
      split_ifs
      · exact hcall _ _ (hmoved _)
      · exact hmoved _

end AmEntity

end LlmHric.Rlc
