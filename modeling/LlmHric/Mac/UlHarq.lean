import LlmHric.Mac.DlHarq

/-! Uplink processes are kept in three lists like downlink ones. `post_process_ulsch` takes a
process for a grant, `handle_nr_ul_harq` moves it on when the result of its CRC arrives and first
gives up the processes that were expected before it, and `reset_ul_harq_list` frees all. With HARQ
disabled a granted process is free again at once, and CRC results are ignored. -/

namespace LlmHric.Mac

open Run

/-- `NR_UE_ul_harq_t`, with the size of its transport block. -/
structure NrUeUlHarq where
  isWaiting : Bool
  ndi : UInt8
  round : UInt8
  feedbackSlot : UInt16
  tbSize : ℕ

/-- The uplink HARQ processes of `NR_UE_sched_ctrl_t`, with what their functions count. -/
structure NrUeUlSchedCtrl where
  ulHarqProcesses : ℕ → NrUeUlHarq
  availableUlHarq : NrList
  feedbackUlHarq : NrList
  retransUlHarq : NrList
  sr : Bool
  schedUlBytes : ℤ
  ulErrors : ℕ

/-- What a grant says in `NR_sched_pusch_t`; a negative process is none. -/
structure NrSchedPusch where
  ulHarqPid : Option ℕ
  slot : UInt16
  tbSize : ℕ

/-- `get_nrofHARQ_ProcessesForPUSCH`, for the configuration of more processes of a UE. -/
def getNrofHarqProcessesForPusch (nrofHarqProcessesForPuschR17 : Bool) : ℕ :=
  if nrofHarqProcessesForPuschR17 then 32 else 16

/-- The number of processes that `create_ul_harq_list` sets up. -/
def nrofUlHarq (r17 dci0010 : Bool) : ℕ :=
  let nrof := getNrofHarqProcessesForPusch r17
  if dci0010 ∧ nrof > 16 then 16 else nrof

theorem nrofUlHarq_le (r17 dci0010 : Bool) : nrofUlHarq r17 dci0010 ≤ nrMaxHarqProcesses := by
  cases r17 <;> cases dci0010 <;> decide

namespace NrUeUlSchedCtrl

/-- The state of a new UE, all zero. -/
def zero : NrUeUlSchedCtrl where
  ulHarqProcesses _ := ⟨false, 0, 0, 0, 0⟩
  availableUlHarq := ⟨some 0, fun _ => none, some 0, 0⟩
  feedbackUlHarq := ⟨some 0, fun _ => none, some 0, 0⟩
  retransUlHarq := ⟨some 0, fun _ => none, some 0, 0⟩
  sr := false
  schedUlBytes := 0
  ulErrors := 0

/-- Write a process. -/
def setHarq (s : NrUeUlSchedCtrl) (pid : ℕ) (harq : NrUeUlHarq) : NrUeUlSchedCtrl :=
  { s with ulHarqProcesses := Function.update s.ulHarqProcesses pid harq }

/-- The process was granted, and is not free again: it waits for its CRC or for a
retransmission. -/
def InUse (s : NrUeUlSchedCtrl) (pid : ℕ) : Prop :=
  (s.ulHarqProcesses pid).isWaiting = true ∨ (s.ulHarqProcesses pid).round ≠ 0

end NrUeUlSchedCtrl

/-! ### Functions -/

/-- `create_ul_harq_list`. -/
def createUlHarqList (r17 dci0010 : Bool) (s : NrUeUlSchedCtrl) : Option NrUeUlSchedCtrl :=
  let nrof := nrofUlHarq r17 dci0010
  if s.availableUlHarq.len = 0 then
    some { s with
      availableUlHarq := (List.range nrof).foldl NrList.addTail (NrList.create nrof)
      feedbackUlHarq := NrList.create nrof
      retransUlHarq := NrList.create nrof }
  else if s.availableUlHarq.len = nrof then some s
  else if nrof > s.availableUlHarq.len then do
    let oldNrof := s.availableUlHarq.len
    let available ← s.availableUlHarq.resize nrof
    let feedback ← s.feedbackUlHarq.resize nrof
    let retrans ← s.retransUlHarq.resize nrof
    some { s with
      availableUlHarq := (List.range' oldNrof (nrof - oldNrof)).foldl NrList.addTail available
      feedbackUlHarq := feedback
      retransUlHarq := retrans }
  else none

/-- `finish_nr_ul_harq`. -/
def finishNrUlHarq (s : NrUeUlSchedCtrl) (harqPid : ℕ) : NrUeUlSchedCtrl :=
  let harq := s.ulHarqProcesses harqPid
  { s.setHarq harqPid { harq with ndi := harq.ndi ^^^ 1, round := 0 } with
    availableUlHarq := s.availableUlHarq.addTail harqPid }

/-- `abort_nr_ul_harq`: the bytes of the transmission are not expected any more. -/
def abortNrUlHarq (s : NrUeUlSchedCtrl) (harqPid : ℕ) : NrUeUlSchedCtrl :=
  { finishNrUlHarq s harqPid with
    ulErrors := s.ulErrors + 1
    schedUlBytes := max 0 (s.schedUlBytes - (s.ulHarqProcesses harqPid).tbSize) }

/-- The end of `handle_nr_ul_harq` for a transmission that failed, which is also that for a process
that is given up. -/
def failNrUlHarq (harqRoundMax : UInt8) (s : NrUeUlSchedCtrl) (harqPid : ℕ) : NrUeUlSchedCtrl :=
  let harq := s.ulHarqProcesses harqPid
  if (harq.round.toNat : ℤ) ≥ harqRoundMax.toNat - 1 then abortNrUlHarq s harqPid
  else
    { s.setHarq harqPid { harq with round := harq.round + 1 } with
      retransUlHarq := s.retransUlHarq.addTail harqPid }

/-- The loop of `handle_nr_ul_harq` over the processes before the one of the CRC. -/
def giveUpUlHarq (harqRoundMax : UInt8) (crcHarqId : ℤ) :
    ℕ → NrUeUlSchedCtrl → Option (NrUeUlSchedCtrl × Option ℕ)
  | 0, _ => none
  | fuel + 1, s =>
    match s.feedbackUlHarq.head with
    | none => some (s, none)
    | some harqPid =>
      if crcHarqId = harqPid then some (s, some harqPid)
      else do
        let feedback ← s.feedbackUlHarq.removeFront
        let s := { s with feedbackUlHarq := feedback }
        let s := s.setHarq harqPid { s.ulHarqProcesses harqPid with isWaiting := false }
        giveUpUlHarq harqRoundMax crcHarqId fuel (failNrUlHarq harqRoundMax s harqPid)

/-- `handle_nr_ul_harq`; the status says that the CRC failed. -/
def handleNrUlHarq (harqRoundMax : UInt8) (disableHarq : Bool) (crcHarqId : ℤ) (crcStatus : Bool)
    (s : NrUeUlSchedCtrl) : Option NrUeUlSchedCtrl :=
  if disableHarq then some s
  else do
    let (s, found) ← giveUpUlHarq harqRoundMax crcHarqId (s.feedbackUlHarq.len + 1) s
    match found with
    | none => some s
    | some harqPid => do
      let feedback ← s.feedbackUlHarq.removeFront
      let s := { s with feedbackUlHarq := feedback }
      let harq := s.ulHarqProcesses harqPid
      if !harq.isWaiting then none
      else
        let s := s.setHarq harqPid { harq with feedbackSlot := 65535, isWaiting := false }
        if !crcStatus then some (finishNrUlHarq s harqPid)
        else some (failNrUlHarq harqRoundMax s harqPid)

/-- The choice of a process in `post_process_ulsch`. -/
def takeUlHarq (ulHarqPid : Option ℕ) (s : NrUeUlSchedCtrl) : Option (ℕ × NrUeUlSchedCtrl) :=
  match ulHarqPid with
  | none => do
    let harqId ← s.availableUlHarq.head
    let available ← s.availableUlHarq.removeFront
    some (harqId, { s with availableUlHarq := available })
  | some harqId =>
    if (s.ulHarqProcesses harqId).round = 0 then do
      let available ← s.availableUlHarq.remove harqId
      some (harqId, { s with availableUlHarq := available })
    else do
      let retrans ← s.retransUlHarq.remove harqId
      some (harqId, { s with retransUlHarq := retrans })

/-- `post_process_ulsch`. -/
def postProcessUlsch (harqRoundMax : UInt8) (disableHarq : Bool) (schedPusch : NrSchedPusch)
    (s : NrUeUlSchedCtrl) : Option NrUeUlSchedCtrl := do
  let s := { s with sr := false }
  let (harqId, s) ← takeUlHarq schedPusch.ulHarqPid s
  let curHarq := s.ulHarqProcesses harqId
  if curHarq.isWaiting then none
  else
    let s :=
      if disableHarq then finishNrUlHarq s harqId
      else
        { s.setHarq harqId { curHarq with feedbackSlot := schedPusch.slot, isWaiting := true } with
          feedbackUlHarq := s.feedbackUlHarq.addTail harqId }
    let curHarq := s.ulHarqProcesses harqId
    if curHarq.round < harqRoundMax then
      let bytes := if curHarq.round = 0 then s.schedUlBytes + schedPusch.tbSize else s.schedUlBytes
      some { s.setHarq harqId { curHarq with tbSize := schedPusch.tbSize } with
        schedUlBytes := bytes }
    else none

/-- `reset_ul_harq_list`. -/
def resetUlHarqList (s : NrUeUlSchedCtrl) : Option NrUeUlSchedCtrl := do
  let (feedback, available) ←
    moveAll (s.feedbackUlHarq.len + 1) s.feedbackUlHarq s.availableUlHarq
  let (retrans, available) ← moveAll (s.retransUlHarq.len + 1) s.retransUlHarq available
  some { s with
    availableUlHarq := available
    feedbackUlHarq := feedback
    retransUlHarq := retrans
    ulHarqProcesses := fun i =>
      if i < nrMaxHarqProcesses then
        { s.ulHarqProcesses i with feedbackSlot := 65535, round := 0, isWaiting := false }
      else s.ulHarqProcesses i }

/-- What happens to the processes of a UE. -/
inductive UlHarqOp
  /-- The UE is configured, with a number of processes. -/
  | configure (r17 dci0010 : Bool)
  /-- A grant for new data or a retransmission. -/
  | grant (disableHarq : Bool) (schedPusch : NrSchedPusch)
  /-- The result of a CRC. -/
  | crc (disableHarq : Bool) (crcHarqId : ℤ) (crcStatus : Bool)
  /-- The processes are reset. -/
  | reset

/-- The function that is called. -/
def UlHarqOp.run (harqRoundMax : UInt8) : UlHarqOp → NrUeUlSchedCtrl → Option NrUeUlSchedCtrl
  | configure r17 dci0010 => createUlHarqList r17 dci0010
  | grant disableHarq schedPusch => postProcessUlsch harqRoundMax disableHarq schedPusch
  | crc disableHarq crcHarqId crcStatus =>
    handleNrUlHarq harqRoundMax disableHarq crcHarqId crcStatus
  | reset => resetUlHarqList

/-! ### The rules of the three lists -/

/-- An uplink process in the place of a downlink one. -/
def NrUeUlHarq.asDl (harq : NrUeUlHarq) : NrUeHarq :=
  ⟨harq.isWaiting, harq.ndi, harq.round, 0, harq.feedbackSlot⟩

/-- The uplink processes in the place of downlink ones. -/
def NrUeUlSchedCtrl.asDl (s : NrUeUlSchedCtrl) : NrUeSchedCtrl where
  harqProcesses pid := (s.ulHarqProcesses pid).asDl
  availableDlHarq := s.availableUlHarq
  feedbackDlHarq := s.feedbackUlHarq
  retransDlHarq := s.retransUlHarq
  dlErrors := s.ulErrors

@[simp] theorem NrUeUlSchedCtrl.ulHarqProcesses_setHarq (s : NrUeUlSchedCtrl) (pid : ℕ)
    (harq : NrUeUlHarq) : (s.setHarq pid harq).ulHarqProcesses pid = harq := Function.update_self ..

theorem NrUeUlSchedCtrl.ulHarqProcesses_setHarq_of_ne (s : NrUeUlSchedCtrl) {x pid : ℕ}
    (hx : x ≠ pid) (harq : NrUeUlHarq) :
    (s.setHarq pid harq).ulHarqProcesses x = s.ulHarqProcesses x := Function.update_of_ne hx ..

theorem NrUeUlSchedCtrl.asDl_setHarq (s : NrUeUlSchedCtrl) (pid : ℕ) (harq : NrUeUlHarq) :
    (s.setHarq pid harq).asDl = s.asDl.setHarq pid harq.asDl := by
  have hprocesses : (fun i => (Function.update s.ulHarqProcesses pid harq i).asDl) =
      Function.update (fun i => (s.ulHarqProcesses i).asDl) pid harq.asDl := by
    funext i
    by_cases hi : i = pid
    · subst hi
      rw [Function.update_self, Function.update_self]
    · rw [Function.update_of_ne hi, Function.update_of_ne hi]
  simp only [NrUeUlSchedCtrl.setHarq, NrUeUlSchedCtrl.asDl, NrUeSchedCtrl.setHarq, hprocesses]

theorem asDl_finishNrUlHarq (s : NrUeUlSchedCtrl) (pid : ℕ) :
    (finishNrUlHarq s pid).asDl = finishNrDlHarq s.asDl pid := by
  have hset := s.asDl_setHarq pid
    { s.ulHarqProcesses pid with ndi := (s.ulHarqProcesses pid).ndi ^^^ 1, round := 0 }
  have hprocesses := congrArg NrUeSchedCtrl.harqProcesses hset
  simp only [NrUeUlSchedCtrl.asDl, NrUeUlSchedCtrl.setHarq, NrUeSchedCtrl.setHarq] at hprocesses
  simp only [finishNrUlHarq, finishNrDlHarq, NrUeUlSchedCtrl.asDl, NrUeUlSchedCtrl.setHarq,
    NrUeSchedCtrl.setHarq, hprocesses]
  rfl

/-- The three lists, with rounds below the maximum wherever a process is in use. -/
structure UlHarqInv (harqRoundMax : UInt8) (held : List ℕ) (s : NrUeUlSchedCtrl)
    (a f r : List ℕ) : Prop where
  lists : HarqInv harqRoundMax held s.asDl a f r
  round : ∀ pid, (s.ulHarqProcesses pid).round = 0 ∨ (s.ulHarqProcesses pid).round < harqRoundMax
  max_pos : f ≠ [] → 0 < harqRoundMax

theorem NrUeUlSchedCtrl.inUse_congr {s t : NrUeUlSchedCtrl} {pid : ℕ}
    (h : t.ulHarqProcesses pid = s.ulHarqProcesses pid) : t.InUse pid ↔ s.InUse pid := by
  rw [InUse, InUse, h]

theorem NrUeUlSchedCtrl.inUse_setHarq {s : NrUeUlSchedCtrl} {pid x : ℕ} {harq : NrUeUlHarq}
    (h : (s.setHarq pid harq).InUse x) : x = pid ∨ s.InUse x := by
  by_cases hx : x = pid
  · exact .inl hx
  · exact .inr ((inUse_congr (s.ulHarqProcesses_setHarq_of_ne hx harq)).mp h)

theorem inUse_finishNrUlHarq {s : NrUeUlSchedCtrl} {pid x : ℕ}
    (h : (finishNrUlHarq s pid).InUse x) : x = pid ∨ s.InUse x :=
  NrUeUlSchedCtrl.inUse_setHarq h

theorem inUse_failNrUlHarq {harqRoundMax : UInt8} {s : NrUeUlSchedCtrl} {pid x : ℕ}
    (h : (failNrUlHarq harqRoundMax s pid).InUse x) : x = pid ∨ s.InUse x := by
  unfold failNrUlHarq at h
  dsimp only at h
  split_ifs at h
  · exact NrUeUlSchedCtrl.inUse_setHarq h
  · exact NrUeUlSchedCtrl.inUse_setHarq h

namespace UlHarqInv

variable {harqRoundMax : UInt8} {held a f r : List ℕ} {s t : NrUeUlSchedCtrl} {pid : ℕ}

/-- The process whose CRC is expected first is in use. -/
theorem inUse_head (h : UlHarqInv harqRoundMax [] s a (pid :: f) r) : s.InUse pid :=
  .inl ((h.lists.waiting pid List.not_mem_nil).mpr (List.mem_cons_self ..))

/-- A held process is written. -/
theorem setHarq (h : UlHarqInv harqRoundMax [pid] s a f r) (harq : NrUeUlHarq)
    (hround : harq.round = 0 ∨ harq.round < harqRoundMax) :
    UlHarqInv harqRoundMax [pid] (s.setHarq pid harq) a f r where
  lists := by
    rw [NrUeUlSchedCtrl.asDl_setHarq]
    exact h.lists.setHarq harq.asDl
  round x := by
    by_cases hx : x = pid
    · subst hx
      rwa [NrUeUlSchedCtrl.ulHarqProcesses_setHarq]
    · rw [NrUeUlSchedCtrl.ulHarqProcesses_setHarq_of_ne s hx]
      exact h.round x
  max_pos := h.max_pos

theorem finish (h : UlHarqInv harqRoundMax [pid] s a f r)
    (hwaiting : (s.ulHarqProcesses pid).isWaiting = false) :
    UlHarqInv harqRoundMax [] (finishNrUlHarq s pid) (a ++ [pid]) f r where
  lists := by
    rw [asDl_finishNrUlHarq]
    exact h.lists.finish hwaiting
  round := (h.setHarq { s.ulHarqProcesses pid with
    ndi := (s.ulHarqProcesses pid).ndi ^^^ 1, round := 0 } (.inl rfl)).round
  max_pos := h.max_pos

/-- What is counted does not matter. -/
theorem abort (h : UlHarqInv harqRoundMax [pid] s a f r)
    (hwaiting : (s.ulHarqProcesses pid).isWaiting = false) :
    UlHarqInv harqRoundMax [] (abortNrUlHarq s pid) (a ++ [pid]) f r where
  lists := { (h.finish hwaiting).lists with }
  round := (h.finish hwaiting).round
  max_pos := h.max_pos

/-- A failed transmission is given up or waits for a retransmission. -/
theorem fail (h : UlHarqInv harqRoundMax [pid] s a f r)
    (hwaiting : (s.ulHarqProcesses pid).isWaiting = false) :
    ∃ a' r', UlHarqInv harqRoundMax [] (failNrUlHarq harqRoundMax s pid) a' f r' := by
  unfold failNrUlHarq
  dsimp only
  split_ifs with hlast
  · exact ⟨_, _, h.abort hwaiting⟩
  · have hround : ((s.ulHarqProcesses pid).round + 1).toNat =
        (s.ulHarqProcesses pid).round.toNat + 1 := by
      have hmax := harqRoundMax.toNat_lt
      rw [UInt8.toNat_add]
      refine Nat.mod_eq_of_lt ?_
      have hone : (1 : UInt8).toNat = 1 := rfl
      omega
    have hbelow : (s.ulHarqProcesses pid).round + 1 < harqRoundMax := by
      rw [UInt8.lt_iff_toNat_lt, hround]
      omega
    have hnext := h.setHarq { s.ulHarqProcesses pid with
      round := (s.ulHarqProcesses pid).round + 1 } (.inr hbelow)
    refine ⟨_, _, ⟨hnext.lists.putRetrans ?_ ?_, hnext.round, h.max_pos⟩⟩
    · rw [NrUeUlSchedCtrl.asDl_setHarq, HarqInv.harqProcesses_setHarq]
      exact hwaiting
    · rw [NrUeUlSchedCtrl.asDl_setHarq, HarqInv.harqProcesses_setHarq]
      refine ⟨?_, UInt8.lt_iff_toNat_lt.mp hbelow⟩
      change 1 ≤ ((s.ulHarqProcesses pid).round + 1).toNat
      omega

/-- The first process that waits for its CRC is taken from its list. -/
theorem takeFeedback {l : NrList} (h : UlHarqInv harqRoundMax [] s a (pid :: f) r)
    (hl : l.Represents f) (hlen : l.len = s.feedbackUlHarq.len) :
    UlHarqInv harqRoundMax [pid] { s with feedbackUlHarq := l } a f r where
  lists := h.lists.takeFeedback hl hlen
  round := h.round
  max_pos _ := h.max_pos (List.cons_ne_nil _ _)

/-- The processes before the one of the CRC are given up, and the loop ends. -/
theorem giveUpUlHarq_inv {crcHarqId : ℤ} {fuel : ℕ} (h : UlHarqInv harqRoundMax [] s a f r)
    (hfuel : f.length < fuel) :
    ∃ t found, giveUpUlHarq harqRoundMax crcHarqId fuel s = some (t, found) ∧
      (∀ x, t.InUse x → s.InUse x) ∧
      ∃ a' f' r', UlHarqInv harqRoundMax [] t a' f' r' ∧ ∀ pid ∈ found, f'.head? = some pid := by
  induction f generalizing fuel s a r with
  | nil =>
    obtain ⟨fuel, rfl⟩ := Nat.exists_eq_succ_of_ne_zero (Nat.ne_of_gt hfuel)
    have hhead : s.feedbackUlHarq.head = none := h.lists.feedback.head
    exact ⟨s, none, by simp [giveUpUlHarq, hhead], fun _ => id, a, [], r, h, by simp⟩
  | cons pid f ih =>
    obtain ⟨fuel, rfl⟩ := Nat.exists_eq_succ_of_ne_zero (Nat.ne_of_gt (Nat.zero_lt_of_lt hfuel))
    have hhead : s.feedbackUlHarq.head = some pid := h.lists.feedback.head
    by_cases hid : crcHarqId = pid
    · exact ⟨s, some pid, by simp [giveUpUlHarq, hhead, hid], fun _ => id, a, pid :: f, r, h,
        by simp⟩
    · obtain ⟨l, hl, hrep, hlen⟩ := h.lists.feedback.removeFront
      have htake := (h.takeFeedback hrep hlen).setHarq
        { s.ulHarqProcesses pid with isWaiting := false } (h.round pid)
      obtain ⟨a₁, r₁, h₁⟩ := htake.fail (by rw [NrUeUlSchedCtrl.ulHarqProcesses_setHarq])
      obtain ⟨t, found, hrun, huse, hinv⟩ := ih h₁ (Nat.lt_of_succ_lt_succ hfuel)
      have hl : s.feedbackUlHarq.removeFront = some l := hl
      refine ⟨t, found, by simp [giveUpUlHarq, hhead, hid, hl, hrun], fun x hx => ?_, hinv⟩
      rcases inUse_failNrUlHarq (huse x hx) with rfl | hx
      · exact h.inUse_head
      · rcases NrUeUlSchedCtrl.inUse_setHarq hx with rfl | hx
        · exact h.inUse_head
        · exact hx

/-- The result of a CRC is handled, whatever process it is for. -/
theorem handleNrUlHarq_inv (disableHarq : Bool) (crcHarqId : ℤ) (crcStatus : Bool)
    (h : UlHarqInv harqRoundMax [] s a f r) :
    ∃ t, handleNrUlHarq harqRoundMax disableHarq crcHarqId crcStatus s = some t ∧
      (∀ x, t.InUse x → s.InUse x) ∧ ∃ a' f' r', UlHarqInv harqRoundMax [] t a' f' r' := by
  cases disableHarq with
  | true => exact ⟨s, rfl, fun _ => id, a, f, r, h⟩
  | false =>
    have hgive : ∃ u found, giveUpUlHarq harqRoundMax crcHarqId (s.feedbackUlHarq.len + 1) s =
        some (u, found) ∧ (∀ x, u.InUse x → s.InUse x) ∧
          ∃ a' f' r', UlHarqInv harqRoundMax [] u a' f' r' ∧ ∀ pid ∈ found, f'.head? = some pid :=
      h.giveUpUlHarq_inv (Nat.lt_succ_of_le h.lists.feedback.length_le)
    obtain ⟨u, found, hu, huse, a₁, f₁, r₁, h₁, hfound⟩ := hgive
    cases found with
    | none => exact ⟨u, by simp [handleNrUlHarq, hu], huse, a₁, f₁, r₁, h₁⟩
    | some pid =>
      obtain ⟨f₂, rfl⟩ := List.head?_eq_some_iff.mp (hfound pid rfl)
      obtain ⟨l, hl, hrep, hlen⟩ := h₁.lists.feedback.removeFront
      have hl : u.feedbackUlHarq.removeFront = some l := hl
      have hwaiting : (u.ulHarqProcesses pid).isWaiting = true :=
        (h₁.lists.waiting pid List.not_mem_nil).mpr (List.mem_cons_self ..)
      have hset := (h₁.takeFeedback hrep hlen).setHarq
        { u.ulHarqProcesses pid with feedbackSlot := 65535, isWaiting := false } (h₁.round pid)
      -- only the process that was found is written
      have hfound_use : ∀ harq x,
          x = pid ∨ ({ u with feedbackUlHarq := l }.setHarq pid harq).InUse x → s.InUse x := by
        rintro harq x (rfl | hx)
        · exact huse x h₁.inUse_head
        · rcases NrUeUlSchedCtrl.inUse_setHarq hx with rfl | hx
          · exact huse x h₁.inUse_head
          · exact huse x hx
      cases crcStatus with
      | false =>
        refine ⟨_, by simp only [handleNrUlHarq, hu, hl, hwaiting, Option.bind_eq_bind,
          Option.bind_some, Bool.not_true, Bool.not_false, if_true, if_false, Bool.false_eq_true],
          ?_, _, _, _, hset.finish ?_⟩
        · exact fun x hx => hfound_use _ x (inUse_finishNrUlHarq hx)
        · rw [NrUeUlSchedCtrl.ulHarqProcesses_setHarq]
      | true =>
        obtain ⟨a', r', h'⟩ := hset.fail (by rw [NrUeUlSchedCtrl.ulHarqProcesses_setHarq])
        refine ⟨_, by simp only [handleNrUlHarq, hu, hl, hwaiting, Option.bind_eq_bind,
          Option.bind_some, Bool.not_true, if_false, Bool.false_eq_true],
          ?_, a', f₂, r', h'⟩
        exact fun x hx => hfound_use _ x (inUse_failNrUlHarq hx)

/-- A process is taken for a grant. -/
theorem takeUlHarq_inv {ulHarqPid : Option ℕ} (h : UlHarqInv harqRoundMax [] s a f r)
    (ht : takeUlHarq ulHarqPid s = some (pid, t)) :
    ∃ a' r', UlHarqInv harqRoundMax [pid] t a' f r' := by
  unfold takeUlHarq at ht
  cases ulHarqPid with
  | none =>
    obtain ⟨x, hx, ht⟩ := Option.bind_eq_some_iff.mp ht
    obtain ⟨l, hl, ht⟩ := Option.bind_eq_some_iff.mp ht
    cases ht
    have hhead : a.head? = some pid := h.lists.available.head.symm.trans hx
    obtain ⟨a, rfl⟩ := List.head?_eq_some_iff.mp hhead
    obtain ⟨l', hl', hrep, hlen⟩ := h.lists.available.removeFront
    obtain rfl := Option.some.inj (hl.symm.trans hl')
    have hrep : l.Represents ((pid :: a).erase pid) := by rwa [List.erase_cons_head]
    exact ⟨_, r, h.lists.takeAvailable (List.mem_cons_self ..) hrep hlen, h.round, h.max_pos⟩
  | some x =>
    dsimp only at ht
    split_ifs at ht with hround
    · obtain ⟨l, hl, ht⟩ := Option.bind_eq_some_iff.mp ht
      cases ht
      by_cases hx : pid ∈ a
      · obtain ⟨l', hl', hrep, hlen⟩ := h.lists.available.remove hx
        obtain rfl := Option.some.inj (hl.symm.trans hl')
        exact ⟨_, r, h.lists.takeAvailable hx hrep hlen, h.round, h.max_pos⟩
      · have hnone : s.availableUlHarq.remove pid = none :=
          NrList.remove_eq_none h.lists.available hx
        rw [hnone] at hl
        cases hl
    · obtain ⟨l, hl, ht⟩ := Option.bind_eq_some_iff.mp ht
      cases ht
      by_cases hx : pid ∈ r
      · obtain ⟨l', hl', hrep, hlen⟩ := h.lists.retrans.remove hx
        obtain rfl := Option.some.inj (hl.symm.trans hl')
        exact ⟨a, _, h.lists.takeRetrans hx hrep hlen, h.round, h.max_pos⟩
      · have hnone : s.retransUlHarq.remove pid = none := NrList.remove_eq_none h.lists.retrans hx
        rw [hnone] at hl
        cases hl

/-- The size of a transport block and the counted bytes do not matter. -/
theorem setTbSize (h : UlHarqInv harqRoundMax [] s a f r) (tbSize : ℕ) (bytes : ℤ) :
    UlHarqInv harqRoundMax []
      { s.setHarq pid { s.ulHarqProcesses pid with tbSize := tbSize } with schedUlBytes := bytes }
      a f r := by
  have hsame : ∀ x, ((s.setHarq pid { s.ulHarqProcesses pid with
      tbSize := tbSize }).ulHarqProcesses x).asDl = (s.ulHarqProcesses x).asDl := by
    intro x
    by_cases hx : x = pid
    · subst hx
      rw [NrUeUlSchedCtrl.ulHarqProcesses_setHarq]
      rfl
    · rw [NrUeUlSchedCtrl.ulHarqProcesses_setHarq_of_ne s hx]
  have hdl : (s.setHarq pid { s.ulHarqProcesses pid with tbSize := tbSize }).asDl = s.asDl := by
    have hprocesses := funext hsame
    simp only [NrUeUlSchedCtrl.setHarq] at hprocesses
    simp only [NrUeUlSchedCtrl.asDl, NrUeUlSchedCtrl.setHarq, hprocesses]
  refine ⟨?_, fun x => ?_, h.max_pos⟩
  · change HarqInv harqRoundMax []
      (s.setHarq pid { s.ulHarqProcesses pid with tbSize := tbSize }).asDl a f r
    rw [hdl]
    exact h.lists
  · have hround := congrArg NrUeHarq.round (hsame x)
    change ((s.setHarq pid { s.ulHarqProcesses pid with
      tbSize := tbSize }).ulHarqProcesses x).round = (s.ulHarqProcesses x).round at hround
    change ((s.setHarq pid { s.ulHarqProcesses pid with
      tbSize := tbSize }).ulHarqProcesses x).round = 0 ∨
        ((s.setHarq pid { s.ulHarqProcesses pid with
          tbSize := tbSize }).ulHarqProcesses x).round < harqRoundMax
    rw [hround]
    exact h.round x

theorem pos_of_round_lt {round : UInt8} (h : round < harqRoundMax) : 0 < harqRoundMax := by
  rw [UInt8.lt_iff_toNat_lt] at h ⊢
  exact Nat.lt_of_le_of_lt (Nat.zero_le _) h

/-- A process that is held waits for its CRC. -/
theorem putFeedback (h : UlHarqInv harqRoundMax [pid] s a f r)
    (hwaiting : (s.ulHarqProcesses pid).isWaiting = true) (hmax : 0 < harqRoundMax) :
    UlHarqInv harqRoundMax [] { s with feedbackUlHarq := s.feedbackUlHarq.addTail pid }
      a (f ++ [pid]) r :=
  ⟨h.lists.putFeedback hwaiting, h.round, fun _ => hmax⟩

/-- A grant takes a process, whose round is below the maximum. -/
theorem postProcessUlsch_inv {disableHarq : Bool} {schedPusch : NrSchedPusch}
    (h : UlHarqInv harqRoundMax [] s a f r)
    (ht : postProcessUlsch harqRoundMax disableHarq schedPusch s = some t) :
    0 < harqRoundMax ∧ ∃ a' f' r', UlHarqInv harqRoundMax [] t a' f' r' := by
  have hsr : UlHarqInv harqRoundMax [] { s with sr := false } a f r :=
    ⟨h.lists, h.round, h.max_pos⟩
  obtain ⟨⟨pid, u⟩, hu, ht⟩ := Option.bind_eq_some_iff.mp ht
  obtain ⟨a₁, r₁, h₁⟩ := hsr.takeUlHarq_inv hu
  dsimp only at ht
  cases hwaiting : (u.ulHarqProcesses pid).isWaiting with
  | true =>
    rw [hwaiting, if_pos rfl] at ht
    cases ht
  | false =>
    rw [hwaiting, if_neg Bool.false_ne_true] at ht
    -- the state before the size of the transport block is stored
    obtain ⟨v, hv⟩ : ∃ v, v = if disableHarq = true then finishNrUlHarq u pid
      else { u.setHarq pid { u.ulHarqProcesses pid with
          feedbackSlot := schedPusch.slot, isWaiting := true } with
        feedbackUlHarq := u.feedbackUlHarq.addTail pid } := ⟨_, rfl⟩
    rw [← hv] at ht
    by_cases hbelow : (v.ulHarqProcesses pid).round < harqRoundMax
    swap
    · rw [if_neg hbelow] at ht
      cases ht
    rw [if_pos hbelow] at ht
    cases ht
    refine ⟨pos_of_round_lt hbelow, ?_⟩
    cases disableHarq with
    | true =>
      obtain rfl : v = finishNrUlHarq u pid := hv
      exact ⟨_, _, _, (h₁.finish hwaiting).setTbSize _ _⟩
    | false =>
      have hset := h₁.setHarq { u.ulHarqProcesses pid with
        feedbackSlot := schedPusch.slot, isWaiting := true } (h₁.round pid)
      have hput := hset.putFeedback (by rw [NrUeUlSchedCtrl.ulHarqProcesses_setHarq])
        (pos_of_round_lt hbelow)
      rw [if_neg Bool.false_ne_true] at hv
      rw [hv]
      exact ⟨_, _, _, hput.setTbSize _ _⟩

/-- A reset frees all processes. -/
theorem resetUlHarqList_inv (h : UlHarqInv harqRoundMax [] s a f r) :
    ∃ t, resetUlHarqList s = some t ∧ UlHarqInv harqRoundMax [] t (a ++ f ++ r) [] [] := by
  obtain ⟨d, hd, hlists⟩ := h.lists.resetDlHarqList_inv
  unfold resetDlHarqList at hd
  obtain ⟨⟨feedback, available⟩, hfirst, hd⟩ := Option.bind_eq_some_iff.mp hd
  obtain ⟨⟨retrans, available'⟩, hsecond, hd⟩ := Option.bind_eq_some_iff.mp hd
  have hfirst : moveAll (s.feedbackUlHarq.len + 1) s.feedbackUlHarq s.availableUlHarq =
      some (feedback, available) := hfirst
  have hsecond : moveAll (s.retransUlHarq.len + 1) s.retransUlHarq available =
      some (retrans, available') := hsecond
  cases hd
  have ht : resetUlHarqList s = some { s with
      availableUlHarq := available'
      feedbackUlHarq := feedback
      retransUlHarq := retrans
      ulHarqProcesses := fun i =>
        if i < nrMaxHarqProcesses then
          { s.ulHarqProcesses i with feedbackSlot := 65535, round := 0, isWaiting := false }
        else s.ulHarqProcesses i } := by
    simp only [resetUlHarqList, hfirst, hsecond, Option.bind_eq_bind, Option.bind_some]
  refine ⟨_, ht, ⟨?_, fun x => ?_, fun hne => absurd rfl hne⟩⟩
  · convert hlists using 1
    simp only [NrUeUlSchedCtrl.asDl]
    congr 1
    funext i
    split_ifs <;> rfl
  · dsimp only
    split_ifs
    · exact .inl rfl
    · exact h.round x

theorem createUlHarqList_inv {r17 dci0010 : Bool} (h : UlHarqInv harqRoundMax [] s a f r)
    (ht : createUlHarqList r17 dci0010 s = some t) :
    ∃ a', UlHarqInv harqRoundMax [] t a' f r := by
  have hnrof := nrofUlHarq_le r17 dci0010
  unfold createUlHarqList at ht
  generalize nrofUlHarq r17 dci0010 = nrof at ht hnrof
  dsimp only at ht
  split_ifs at ht with hzero hsame hmore
  · obtain rfl := Option.some.inj ht
    exact ⟨_, h.lists.recreate hzero nrof hnrof, h.round, h.max_pos⟩
  · obtain rfl := Option.some.inj ht
    exact ⟨a, h⟩
  · obtain ⟨la, lf, lr, hla, hlf, hlr, hgrow⟩ := h.lists.grow hmore hnrof
    have hla : s.availableUlHarq.resize nrof = some la := hla
    have hlf : s.feedbackUlHarq.resize nrof = some lf := hlf
    have hlr : s.retransUlHarq.resize nrof = some lr := hlr
    simp only [hla, hlf, hlr, Option.bind_eq_bind, Option.bind_some] at ht
    obtain rfl := Option.some.inj ht
    exact ⟨_, hgrow, h.round, h.max_pos⟩

end UlHarqInv

/-- A UE whose processes were just created. -/
def UlHarqStart (s : NrUeUlSchedCtrl) : Prop :=
  ∃ r17 dci0010, createUlHarqList r17 dci0010 .zero = some s

theorem UlHarqStart.inv {harqRoundMax : UInt8} {s : NrUeUlSchedCtrl} (h : UlHarqStart s) :
    ∃ a f r, UlHarqInv harqRoundMax [] s a f r := by
  obtain ⟨r17, dci0010, hs⟩ := h
  obtain rfl := Option.some.inj hs
  refine ⟨List.range (nrofUlHarq r17 dci0010), [], [], ?_, fun _ => .inl rfl,
    fun hne => absurd rfl hne⟩
  exact HarqInv.create (s := NrUeUlSchedCtrl.zero.asDl) (nrofUlHarq r17 dci0010)
    (nrofUlHarq_le r17 dci0010) fun _ => ⟨rfl, rfl⟩

/-- The operation is a grant. -/
def UlHarqOp.IsGrant : UlHarqOp → Prop
  | grant _ _ => True
  | _ => False

/-- What happens to the processes keeps the invariant. -/
theorem UlHarqOp.run_inv {harqRoundMax : UInt8} {s t : NrUeUlSchedCtrl} {a f r : List ℕ}
    (op : UlHarqOp) (h : UlHarqInv harqRoundMax [] s a f r) (ht : op.run harqRoundMax s = some t) :
    (∃ a' f' r', UlHarqInv harqRoundMax [] t a' f' r') ∧ (op.IsGrant → 0 < harqRoundMax) := by
  cases op with
  | configure r17 dci0010 =>
    obtain ⟨a', h'⟩ := h.createUlHarqList_inv ht
    exact ⟨⟨a', f, r, h'⟩, False.elim⟩
  | grant disableHarq schedPusch =>
    obtain ⟨hmax, hinv⟩ := h.postProcessUlsch_inv ht
    exact ⟨hinv, fun _ => hmax⟩
  | crc disableHarq crcHarqId crcStatus =>
    obtain ⟨u, hu, -, hinv⟩ := h.handleNrUlHarq_inv disableHarq crcHarqId crcStatus
    obtain rfl := Option.some.inj (hu.symm.trans ht)
    exact ⟨hinv, False.elim⟩
  | reset =>
    obtain ⟨u, hu, h'⟩ := h.resetUlHarqList_inv
    obtain rfl := Option.some.inj (hu.symm.trans ht)
    exact ⟨⟨_, _, _, h'⟩, False.elim⟩

/-! ### Processes in use -/

theorem takeUlHarq_processes {ulHarqPid : Option ℕ} {s t : NrUeUlSchedCtrl} {pid : ℕ}
    (ht : takeUlHarq ulHarqPid s = some (pid, t)) :
    ulHarqPid.or s.availableUlHarq.head = some pid ∧ t.ulHarqProcesses = s.ulHarqProcesses := by
  unfold takeUlHarq at ht
  cases ulHarqPid with
  | none =>
    obtain ⟨x, hx, ht⟩ := Option.bind_eq_some_iff.mp ht
    obtain ⟨l, -, ht⟩ := Option.bind_eq_some_iff.mp ht
    cases ht
    exact ⟨hx, rfl⟩
  | some x =>
    dsimp only at ht
    split_ifs at ht
    · obtain ⟨l, -, ht⟩ := Option.bind_eq_some_iff.mp ht
      cases ht
      exact ⟨rfl, rfl⟩
    · obtain ⟨l, -, ht⟩ := Option.bind_eq_some_iff.mp ht
      cases ht
      exact ⟨rfl, rfl⟩

/-- A grant puts one process in use, the one it names or the first that is available. -/
theorem inUse_postProcessUlsch {harqRoundMax : UInt8} {disableHarq : Bool}
    {schedPusch : NrSchedPusch} {s t : NrUeUlSchedCtrl}
    (ht : postProcessUlsch harqRoundMax disableHarq schedPusch s = some t) :
    ∃ pid, schedPusch.ulHarqPid.or s.availableUlHarq.head = some pid ∧
      ∀ x, t.InUse x → x = pid ∨ s.InUse x := by
  obtain ⟨⟨pid, u⟩, hu, ht⟩ := Option.bind_eq_some_iff.mp ht
  obtain ⟨hpid, hsame⟩ := takeUlHarq_processes hu
  refine ⟨pid, hpid, fun x hx => ?_⟩
  dsimp only at ht
  by_cases hwaiting : (u.ulHarqProcesses pid).isWaiting = true
  · rw [if_pos hwaiting] at ht
    cases ht
  rw [if_neg hwaiting] at ht
  generalize hv : (if disableHarq = true then finishNrUlHarq u pid else _) = v at ht
  have hrest : ∀ y ≠ pid, v.ulHarqProcesses y = u.ulHarqProcesses y := by
    intro y hy
    rw [← hv]
    split_ifs
    · exact u.ulHarqProcesses_setHarq_of_ne hy _
    · exact u.ulHarqProcesses_setHarq_of_ne hy _
  by_cases hround : (v.ulHarqProcesses pid).round < harqRoundMax
  · rw [if_pos hround] at ht
    cases ht
    rcases NrUeUlSchedCtrl.inUse_setHarq hx with rfl | hx
    · exact .inl rfl
    · by_cases hxp : x = pid
      · exact .inl hxp
      · have hsame := (hrest x hxp).trans (congrFun hsame x)
        exact .inr ((NrUeUlSchedCtrl.inUse_congr hsame).mp hx)
  · rw [if_neg hround] at ht
    cases ht

theorem ulHarqProcesses_createUlHarqList {r17 dci0010 : Bool} {s t : NrUeUlSchedCtrl}
    (ht : createUlHarqList r17 dci0010 s = some t) : t.ulHarqProcesses = s.ulHarqProcesses := by
  unfold createUlHarqList at ht
  dsimp only at ht
  split_ifs at ht
  · exact Option.some.inj ht ▸ rfl
  · exact Option.some.inj ht ▸ rfl
  · obtain ⟨_, -, ht⟩ := Option.bind_eq_some_iff.mp ht
    obtain ⟨_, -, ht⟩ := Option.bind_eq_some_iff.mp ht
    obtain ⟨_, -, ht⟩ := Option.bind_eq_some_iff.mp ht
    exact Option.some.inj ht ▸ rfl

theorem inUse_resetUlHarqList {s t : NrUeUlSchedCtrl} {x : ℕ} (ht : resetUlHarqList s = some t)
    (hx : t.InUse x) : s.InUse x := by
  obtain ⟨_, -, ht⟩ := Option.bind_eq_some_iff.mp ht
  obtain ⟨_, -, ht⟩ := Option.bind_eq_some_iff.mp ht
  cases ht
  simp only [NrUeUlSchedCtrl.InUse] at hx
  split_ifs at hx
  · exact absurd hx (by simp)
  · exact hx

theorem UlHarqStart.not_inUse {s : NrUeUlSchedCtrl} (h : UlHarqStart s) (x : ℕ) :
    ¬ s.InUse x := by
  obtain ⟨r17, dci0010, hs⟩ := h
  have hprocesses := ulHarqProcesses_createUlHarqList hs
  simp [NrUeUlSchedCtrl.InUse, hprocesses, NrUeUlSchedCtrl.zero]

/-- Only grants put a process in use. -/
theorem UlHarqOp.inUse_of_run {harqRoundMax : UInt8} {s t : NrUeUlSchedCtrl} {a f r : List ℕ}
    {op : UlHarqOp} {x : ℕ} (h : UlHarqInv harqRoundMax [] s a f r)
    (ht : op.run harqRoundMax s = some t) (hgrant : ¬ op.IsGrant) (hx : t.InUse x) :
    s.InUse x := by
  cases op with
  | configure r17 dci0010 =>
    have hprocesses := ulHarqProcesses_createUlHarqList ht
    exact (NrUeUlSchedCtrl.inUse_congr (congrFun hprocesses x)).mp hx
  | grant disableHarq schedPusch => exact absurd trivial hgrant
  | crc disableHarq crcHarqId crcStatus =>
    obtain ⟨u, hu, huse, -⟩ := h.handleNrUlHarq_inv disableHarq crcHarqId crcStatus
    obtain rfl := Option.some.inj (hu.symm.trans ht)
    exact huse x hx
  | reset => exact inUse_resetUlHarqList ht hx

theorem UlHarqInv.inUse_retrans {harqRoundMax : UInt8} {held a f r : List ℕ}
    {s : NrUeUlSchedCtrl} {pid : ℕ} (h : UlHarqInv harqRoundMax held s a f r)
    (hhead : s.retransUlHarq.head = some pid) : s.InUse pid := by
  have hr : r.head? = some pid := h.lists.retrans.head.symm.trans hhead
  have hround := (h.lists.between pid (List.mem_of_mem_head? hr)).1
  refine .inr fun hzero => ?_
  have hzero : ((s.asDl).harqProcesses pid).round = 0 := hzero
  rw [hzero] at hround
  exact absurd hround (by decide)

/-! ### The partition -/

/-- The uplink processes of a UE are shared out among the three lists. -/
structure UlHarqPartition (harqRoundMax : UInt8) (s : NrUeUlSchedCtrl) (a f r : List ℕ) : Prop where
  available : s.availableUlHarq.Represents a
  feedback : s.feedbackUlHarq.Represents f
  retrans : s.retransUlHarq.Represents r
  once : ∀ pid < s.availableUlHarq.len, (a ++ f ++ r).count pid = 1
  only : ∀ pid ∈ a ++ f ++ r, pid < s.availableUlHarq.len
  waiting : ∀ pid < s.availableUlHarq.len, (s.ulHarqProcesses pid).isWaiting = true ↔ pid ∈ f
  fresh : ∀ pid ∈ a, (s.ulHarqProcesses pid).round = 0
  retransmitted : ∀ pid ∈ r, 1 ≤ (s.ulHarqProcesses pid).round
  used : ∀ pid ∈ f ++ r, (s.ulHarqProcesses pid).round < harqRoundMax
  below : 0 < harqRoundMax → ∀ pid, (s.ulHarqProcesses pid).round < harqRoundMax

theorem UlHarqInv.partition {harqRoundMax : UInt8} {s : NrUeUlSchedCtrl} {a f r : List ℕ}
    (h : UlHarqInv harqRoundMax [] s a f r) : UlHarqPartition harqRoundMax s a f r := by
  have hlists := h.lists.partition
  have hbelow : 0 < harqRoundMax → ∀ pid, (s.ulHarqProcesses pid).round < harqRoundMax := by
    intro hmax pid
    rcases h.round pid with hzero | hlt
    · rw [hzero]
      exact hmax
    · exact hlt
  refine ⟨hlists.available, hlists.feedback, hlists.retrans, hlists.once, hlists.only,
    hlists.waiting, hlists.fresh, fun pid hpid => ?_, fun pid hpid => ?_, hbelow⟩
  · exact UInt8.le_iff_toNat_le.mpr (hlists.between pid hpid).1
  · rcases List.mem_append.mp hpid with hf | hr
    · exact hbelow (h.max_pos (List.ne_nil_of_mem hf)) pid
    · exact UInt8.lt_iff_toNat_lt.mpr (h.lists.between pid hr).2

def UlHarqStep (harqRoundMax : UInt8) (op : UlHarqOp) (s t : NrUeUlSchedCtrl) : Prop :=
  op.run harqRoundMax s = some t

/-- In every state that is reached, every process stands once in exactly one of the lists, waits
exactly if it stands in the feedback list, and has a round that fits its list; there is a round to
be below once something was granted; and CRC results and resets are always handled. -/
theorem ulHarq_partition {harqRoundMax : UInt8} {ops : List UlHarqOp} {s : NrUeUlSchedCtrl}
    (h : Reach (UlHarqStep harqRoundMax) UlHarqStart ops s) :
    (∃ a f r, UlHarqPartition harqRoundMax s a f r) ∧
      ((∃ op ∈ ops, op.IsGrant) → 0 < harqRoundMax) ∧
      (∀ disableHarq crcHarqId crcStatus,
        (handleNrUlHarq harqRoundMax disableHarq crcHarqId crcStatus s).isSome) ∧
      (resetUlHarqList s).isSome := by
  obtain ⟨⟨a, f, r, hinv⟩, hgrant⟩ : (∃ a f r, UlHarqInv harqRoundMax [] s a f r) ∧
      ((∃ op ∈ ops, op.IsGrant) → 0 < harqRoundMax) := by
    refine h.traceInvariant (I := fun ops s => (∃ a f r, UlHarqInv harqRoundMax [] s a f r) ∧
      ((∃ op ∈ ops, op.IsGrant) → 0 < harqRoundMax)) (fun _ hs => ⟨hs.inv, ?_⟩) ?_
    · rintro ⟨op, hop, -⟩
      cases hop
    · rintro ops op s t - ⟨⟨a, f, r, hinv⟩, hgrant⟩ hstep
      obtain ⟨hinv', hthis⟩ := op.run_inv hinv hstep
      refine ⟨hinv', ?_⟩
      rintro ⟨op', hop', hg⟩
      rcases List.mem_append.mp hop' with hop' | hop'
      · exact hgrant ⟨op', hop', hg⟩
      · obtain rfl := List.mem_singleton.mp hop'
        exact hthis hg
  refine ⟨⟨a, f, r, hinv.partition⟩, hgrant, fun disableHarq crcHarqId crcStatus => ?_, ?_⟩
  · obtain ⟨t, ht, -⟩ := hinv.handleNrUlHarq_inv disableHarq crcHarqId crcStatus
    rw [ht]
    rfl
  · obtain ⟨t, ht, -⟩ := hinv.resetUlHarqList_inv
    rw [ht]
    rfl

def sixteenProcesses : NrUeUlSchedCtrl := (createUlHarqList false false .zero).getD .zero

/-- Two processes are granted, the CRC of the second comes first, and the one that is given up is
granted again and fails. -/
def crcOutOfOrder : List UlHarqOp :=
  [.grant false ⟨none, 8, 100⟩, .grant false ⟨none, 9, 50⟩, .crc false 1 false, .crc false 5 true,
    .grant false ⟨some 0, 18, 100⟩, .crc false 0 true]

theorem ulHarq_partition_crcOutOfOrder :
    ∃ s, crcOutOfOrder.foldlM (fun s op => UlHarqOp.run 4 op s) sixteenProcesses = some s ∧
      (∃ a f r, UlHarqPartition 4 s a f r) ∧ s.retransUlHarq.head = some 0 := by
  obtain ⟨s, hs⟩ : ∃ s, crcOutOfOrder.foldlM (fun s op => UlHarqOp.run 4 op s) sixteenProcesses =
      some s := ⟨_, rfl⟩
  have hhead : (crcOutOfOrder.foldlM (fun s op => UlHarqOp.run 4 op s) sixteenProcesses).map
      (fun s => s.retransUlHarq.head) = some (some 0) := rfl
  rw [hs] at hhead
  have hstart : Reach (UlHarqStep 4) UlHarqStart [] sixteenProcesses := .start ⟨false, false, rfl⟩
  have hstep : ∀ op ∈ crcOutOfOrder, ∀ s t, UlHarqOp.run 4 op s = some t → UlHarqStep 4 op s t :=
    fun _ _ _ _ hrun => hrun
  have hreach := hstart.append_foldlM hstep hs
  exact ⟨s, hs, (ulHarq_partition hreach).1, Option.some.inj hhead⟩

end LlmHric.Mac
