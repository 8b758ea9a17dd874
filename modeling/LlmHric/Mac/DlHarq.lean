import LlmHric.Library.Run
import LlmHric.Mac.NrList
import Mathlib.Data.Int.Notation
import Mathlib.Data.Nat.Notation

/-! A HARQ process is free, waits for feedback, or waits for a retransmission, and stands in one of
three lists accordingly. `setup_dl_harq_process` takes a process for a transmission,
`handle_dl_harq` moves it on when its feedback arrives, `find_harq` gives up the processes whose
feedback is in the past, and `reset_dl_harq_list` frees all. An acknowledged process may have an
action that configures the UE again, which can add processes.

A run of the code ends where an assertion fails; such calls return `none` here. -/

namespace LlmHric.Mac

open Run

/-! ### State -/

/-- `NR_UE_harq_t`. -/
structure NrUeHarq where
  isWaiting : Bool
  ndi : UInt8
  round : UInt8
  feedbackFrame : UInt16
  feedbackSlot : UInt16

/-- The downlink HARQ processes of `NR_UE_sched_ctrl_t`, with the counter of errors. -/
structure NrUeSchedCtrl where
  harqProcesses : ℕ → NrUeHarq
  availableDlHarq : NrList
  feedbackDlHarq : NrList
  retransDlHarq : NrList
  dlErrors : ℕ

/-- What `NR_UE_ServingCell_Info_t` says about the number of processes. -/
structure NrUeServingCellInfo where
  nrofHarqProcessesForPdschV1700 : Bool
  nrofHarqProcessesForPdsch : Option (Fin 6)

/-- `NR_MAX_HARQ_PROCESSES`. -/
def nrMaxHarqProcesses : ℕ := 32

/-- `get_nrofHARQ_ProcessesForPDSCH`. -/
def getNrofHarqProcessesForPdsch : Option NrUeServingCellInfo → ℕ
  | none => 8
  | some scInfo =>
    if scInfo.nrofHarqProcessesForPdschV1700 then 32
    else match scInfo.nrofHarqProcessesForPdsch with
      | none => 8
      | some i => [2, 4, 6, 10, 12, 16].getD i 0

/-- The number of processes that `create_dl_harq_list` sets up. -/
def nrofHarq (scInfo : Option NrUeServingCellInfo) (dci0010 : Bool) : ℕ :=
  let nrof := getNrofHarqProcessesForPdsch scInfo
  if dci0010 ∧ nrof > 16 then 16 else nrof

theorem nrofHarq_le (scInfo : Option NrUeServingCellInfo) (dci0010 : Bool) :
    nrofHarq scInfo dci0010 ≤ nrMaxHarqProcesses := by
  have hvalues : ∀ i : Fin 6, [2, 4, 6, 10, 12, 16].getD i 0 ≤ nrMaxHarqProcesses := by decide
  have hle : getNrofHarqProcessesForPdsch scInfo ≤ nrMaxHarqProcesses := by
    rcases scInfo with _ | ⟨v1700, _ | i⟩
    · decide
    · cases v1700 <;> decide
    · cases v1700 with
      | true => exact Nat.le_refl nrMaxHarqProcesses
      | false => exact hvalues i
  unfold nrofHarq
  dsimp only
  split_ifs
  · exact (by decide : 16 ≤ nrMaxHarqProcesses)
  · exact hle

namespace NrUeSchedCtrl

/-- The state of a new UE, all zero. -/
def zero : NrUeSchedCtrl where
  harqProcesses _ := ⟨false, 0, 0, 0, 0⟩
  availableDlHarq := ⟨some 0, fun _ => none, some 0, 0⟩
  feedbackDlHarq := ⟨some 0, fun _ => none, some 0, 0⟩
  retransDlHarq := ⟨some 0, fun _ => none, some 0, 0⟩
  dlErrors := 0

/-- Write a process. -/
def setHarq (s : NrUeSchedCtrl) (pid : ℕ) (harq : NrUeHarq) : NrUeSchedCtrl :=
  { s with harqProcesses := Function.update s.harqProcesses pid harq }

end NrUeSchedCtrl

/-! ### Functions -/

/-- `create_dl_harq_list`. -/
def createDlHarqList (scInfo : Option NrUeServingCellInfo) (dci0010 : Bool) (s : NrUeSchedCtrl) :
    Option NrUeSchedCtrl :=
  let nrof := nrofHarq scInfo dci0010
  if s.availableDlHarq.len = s.feedbackDlHarq.len ∧
      s.availableDlHarq.len = s.retransDlHarq.len then
    if s.availableDlHarq.len = 0 then
      some { s with
        availableDlHarq := (List.range nrof).foldl NrList.addTail (NrList.create nrof)
        feedbackDlHarq := NrList.create nrof
        retransDlHarq := NrList.create nrof }
    else if s.availableDlHarq.len = nrof then some s
    else if nrof > s.availableDlHarq.len then do
      let oldNrof := s.availableDlHarq.len
      let available ← s.availableDlHarq.resize nrof
      let feedback ← s.feedbackDlHarq.resize nrof
      let retrans ← s.retransDlHarq.resize nrof
      some { s with
        availableDlHarq := (List.range' oldNrof (nrof - oldNrof)).foldl NrList.addTail available
        feedbackDlHarq := feedback
        retransDlHarq := retrans }
    else none
  else none

/-- `finish_nr_dl_harq`. -/
def finishNrDlHarq (s : NrUeSchedCtrl) (harqPid : ℕ) : NrUeSchedCtrl :=
  let harq := s.harqProcesses harqPid
  { s.setHarq harqPid { harq with ndi := harq.ndi ^^^ 1, round := 0 } with
    availableDlHarq := s.availableDlHarq.addTail harqPid }

/-- `abort_nr_dl_harq`. -/
def abortNrDlHarq (s : NrUeSchedCtrl) (harqPid : ℕ) : NrUeSchedCtrl :=
  { finishNrDlHarq s harqPid with dlErrors := s.dlErrors + 1 }

/-- The choice of a process in `setup_dl_harq_process`: a process that was selected is taken from
its list, otherwise the first free one. -/
def takeDlHarq (dlHarqPid : Option ℕ) (s : NrUeSchedCtrl) : Option (ℕ × NrUeSchedCtrl) :=
  match dlHarqPid with
  | none => do
    let pid ← s.availableDlHarq.head
    let available ← s.availableDlHarq.removeFront
    some (pid, { s with availableDlHarq := available })
  | some pid =>
    if (s.harqProcesses pid).round = 0 then do
      let available ← s.availableDlHarq.remove pid
      some (pid, { s with availableDlHarq := available })
    else do
      let retrans ← s.retransDlHarq.remove pid
      some (pid, { s with retransDlHarq := retrans })

/-- `setup_dl_harq_process`. The PUCCH allocation is given by the frame and the slot of the
feedback; without one the feedback is disabled. -/
def setupDlHarqProcess (dlHarqPid : Option ℕ) (pucchAllocation : Option (UInt16 × UInt16))
    (s : NrUeSchedCtrl) : Option NrUeSchedCtrl := do
  let (pid, s) ← takeDlHarq dlHarqPid s
  let harq := s.harqProcesses pid
  if harq.isWaiting then none
  else
    match pucchAllocation with
    | none => some (finishNrDlHarq s pid)
    | some (frame, slot) =>
      some { s.setHarq pid
          { harq with feedbackFrame := frame, feedbackSlot := slot, isWaiting := true } with
        feedbackDlHarq := s.feedbackDlHarq.addTail pid }

/-- The action of an acknowledged process, `ack_reconfig`: the UE is configured again. -/
def runAction (action : Option (Option NrUeServingCellInfo × Bool)) (s : NrUeSchedCtrl) :
    Option NrUeSchedCtrl :=
  match action with
  | none => some s
  | some (scInfo, dci0010) => createDlHarqList scInfo dci0010 s

/-- `handle_dl_harq`, with the action of the process. -/
def handleDlHarq (harqRoundMax : UInt8) (action : Option (Option NrUeServingCellInfo × Bool))
    (harqPid : ℕ) (success : Bool) (s : NrUeSchedCtrl) : Option NrUeSchedCtrl :=
  let harq := { s.harqProcesses harqPid with feedbackSlot := 65535, isWaiting := false }
  let s := s.setHarq harqPid harq
  if success then do
    let s ← runAction action s
    some (finishNrDlHarq s harqPid)
  else if (harq.round.toNat : ℤ) ≥ harqRoundMax.toNat - 1 then some (abortNrDlHarq s harqPid)
  else
    some { s.setHarq harqPid { harq with round := harq.round + 1 } with
      retransDlHarq := s.retransDlHarq.addTail harqPid }

/-- The feedback of the process is in the past. -/
def NrUeHarq.past (harq : NrUeHarq) (frame slot : UInt32) : Bool :=
  (harq.feedbackFrame.toUInt32 - frame + 1024) % 1024 > 512 ||
    harq.feedbackFrame.toUInt32 == frame && harq.feedbackSlot.toUInt32 < slot

/-- The feedback of the process is in the future. -/
def NrUeHarq.future (harq : NrUeHarq) (frame slot : UInt32) : Bool :=
  (frame - harq.feedbackFrame.toUInt32 + 1024) % 1024 > 512 ||
    harq.feedbackFrame.toUInt32 == frame && harq.feedbackSlot.toUInt32 > slot

/-- The loop of `find_harq`, which gives up every process at most once. -/
def findHarqFrom (harqRoundMax : UInt8) (frame slot : UInt32) :
    ℕ → ℕ → NrUeSchedCtrl → Option (NrUeSchedCtrl × Option ℕ)
  | 0, _, _ => none
  | fuel + 1, pid, s =>
    if (s.harqProcesses pid).past frame slot then do
      let feedback ← s.feedbackDlHarq.removeFront
      let s ← handleDlHarq harqRoundMax none pid false { s with feedbackDlHarq := feedback }
      match s.feedbackDlHarq.head with
      | none => some (s, none)
      | some pid => findHarqFrom harqRoundMax frame slot fuel pid s
    else if (s.harqProcesses pid).future frame slot then some (s, none)
    else some (s, some pid)

/-- `find_harq`: the process whose feedback is expected now. -/
def findHarq (harqRoundMax : UInt8) (frame slot : UInt32) (s : NrUeSchedCtrl) :
    Option (NrUeSchedCtrl × Option ℕ) :=
  match s.feedbackDlHarq.head with
  | none => some (s, none)
  | some pid => findHarqFrom harqRoundMax frame slot s.feedbackDlHarq.len pid s

/-- A HARQ bit of an indication, with the action of the process it is for. -/
structure HarqBit where
  success : Bool
  action : Option (Option NrUeServingCellInfo × Bool)

/-- The loop over the HARQ bits in `handle_nr_uci_pucch_0_1` and `handle_nr_uci_pucch_2_3_4`. -/
def handleHarqBits (harqRoundMax : UInt8) (frame slot : UInt32) :
    List HarqBit → NrUeSchedCtrl → Option NrUeSchedCtrl
  | [], s => some s
  | bit :: bits, s => do
    let (s, found) ← findHarq harqRoundMax frame slot s
    match found with
    | none => some s
    | some harq =>
      if !(s.harqProcesses harq).isWaiting then none
      else do
        let pid ← s.feedbackDlHarq.head
        let feedback ← s.feedbackDlHarq.removeFront
        let s ← handleDlHarq harqRoundMax bit.action pid bit.success
          { s with feedbackDlHarq := feedback }
        handleHarqBits harqRoundMax frame slot bits s

/-- A loop of `reset_dl_harq_list`: all numbers of a list are moved to another. -/
def moveAll : ℕ → NrList → NrList → Option (NrList × NrList)
  | 0, _, _ => none
  | fuel + 1, src, dst =>
    match src.head with
    | none => some (src, dst)
    | some harq => do
      let src ← src.removeFront
      moveAll fuel src (dst.addTail harq)

/-- `reset_dl_harq_list`. -/
def resetDlHarqList (s : NrUeSchedCtrl) : Option NrUeSchedCtrl := do
  let (feedback, available) ←
    moveAll (s.feedbackDlHarq.len + 1) s.feedbackDlHarq s.availableDlHarq
  let (retrans, available) ← moveAll (s.retransDlHarq.len + 1) s.retransDlHarq available
  some { s with
    availableDlHarq := available
    feedbackDlHarq := feedback
    retransDlHarq := retrans
    harqProcesses := fun i =>
      if i < nrMaxHarqProcesses then
        { s.harqProcesses i with feedbackSlot := 65535, round := 0, isWaiting := false }
      else s.harqProcesses i }

/-- What happens to the processes of a UE. -/
inductive HarqOp
  /-- The UE is configured, with a number of processes. -/
  | configure (scInfo : Option NrUeServingCellInfo) (dci0010 : Bool)
  /-- A transmission or a retransmission is scheduled. -/
  | transmit (dlHarqPid : Option ℕ) (pucchAllocation : Option (UInt16 × UInt16))
  /-- HARQ bits arrive. -/
  | feedback (frame slot : UInt32) (bits : List HarqBit)
  /-- The processes are reset. -/
  | reset

/-- The function that is called. -/
def HarqOp.run (harqRoundMax : UInt8) : HarqOp → NrUeSchedCtrl → Option NrUeSchedCtrl
  | configure scInfo dci0010 => createDlHarqList scInfo dci0010
  | transmit dlHarqPid pucchAllocation => setupDlHarqProcess dlHarqPid pucchAllocation
  | feedback frame slot bits => handleHarqBits harqRoundMax frame slot bits
  | reset => resetDlHarqList

/-! ### The three lists -/

/-- The processes of a UE, with those that a function holds: every process is held or stands once in
one of the lists. -/
structure HarqInv (harqRoundMax : UInt8) (held : List ℕ) (s : NrUeSchedCtrl) (a f r : List ℕ) :
    Prop where
  available : s.availableDlHarq.Represents a
  feedback : s.feedbackDlHarq.Represents f
  retrans : s.retransDlHarq.Represents r
  feedbackLen : s.feedbackDlHarq.len = s.availableDlHarq.len
  retransLen : s.retransDlHarq.len = s.availableDlHarq.len
  lenLe : s.availableDlHarq.len ≤ nrMaxHarqProcesses
  once : ∀ pid, (held ++ a ++ f ++ r).count pid = if pid < s.availableDlHarq.len then 1 else 0
  waiting : ∀ pid, pid ∉ held → ((s.harqProcesses pid).isWaiting = true ↔ pid ∈ f)
  fresh : ∀ pid, pid ∉ held → pid ∉ f → pid ∉ r → (s.harqProcesses pid).round = 0
  between : ∀ pid ∈ r, 1 ≤ (s.harqProcesses pid).round.toNat ∧
    (s.harqProcesses pid).round.toNat < harqRoundMax.toNat

namespace HarqInv

variable {harqRoundMax : UInt8} {held a f r : List ℕ} {s : NrUeSchedCtrl} {pid : ℕ} {l : NrList}

theorem count_le (h : HarqInv harqRoundMax held s a f r) (pid : ℕ) :
    held.count pid + a.count pid + f.count pid + r.count pid ≤ 1 := by
  have hcount := h.once pid
  simp only [List.count_append] at hcount
  split_ifs at hcount <;> omega

/-- A process of a list is a process of the UE. -/
theorem lt_len (h : HarqInv harqRoundMax held s a f r) (hpid : pid ∈ held ++ a ++ f ++ r) :
    pid < s.availableDlHarq.len := by
  have hpos := List.count_pos_iff.mpr hpid
  rw [h.once pid] at hpos
  by_contra hge
  rw [if_neg hge] at hpos
  exact absurd hpos (Nat.lt_irrefl 0)

/-- A process that is held stands in no list. -/
theorem notMem_of_held (h : HarqInv harqRoundMax [pid] s a f r) :
    pid ∉ a ∧ pid ∉ f ∧ pid ∉ r := by
  have hle := h.count_le pid
  rw [List.count_singleton_self] at hle
  refine ⟨?_, ?_, ?_⟩ <;>
    · rw [← List.count_eq_zero]
      omega

theorem count_cons_erase {ids : List ℕ} (hpid : pid ∈ ids) (x : ℕ) :
    [pid].count x + (ids.erase pid).count x = ids.count x := by
  rw [← List.count_append]
  exact (List.perm_cons_erase hpid).symm.count_eq x

/-- A free process is taken from its list. -/
theorem takeAvailable (h : HarqInv harqRoundMax [] s a f r) (hpid : pid ∈ a)
    (hl : l.Represents (a.erase pid)) (hlen : l.len = s.availableDlHarq.len) :
    HarqInv harqRoundMax [pid] { s with availableDlHarq := l } (a.erase pid) f r where
  available := hl
  feedback := h.feedback
  retrans := h.retrans
  feedbackLen := h.feedbackLen.trans hlen.symm
  retransLen := h.retransLen.trans hlen.symm
  lenLe := hlen.trans_le h.lenLe
  once x := by
    have hcount := count_cons_erase hpid x
    rw [hlen, ← h.once x]
    simp only [List.count_append, List.count_nil]
    omega
  waiting x _ := h.waiting x List.not_mem_nil
  fresh x _ := h.fresh x List.not_mem_nil
  between := h.between

/-- The first process that waits for feedback is taken from its list. -/
theorem takeFeedback (h : HarqInv harqRoundMax [] s a (pid :: f) r) (hl : l.Represents f)
    (hlen : l.len = s.feedbackDlHarq.len) :
    HarqInv harqRoundMax [pid] { s with feedbackDlHarq := l } a f r where
  available := h.available
  feedback := hl
  retrans := h.retrans
  feedbackLen := hlen.trans h.feedbackLen
  retransLen := h.retransLen
  lenLe := h.lenLe
  once x := by
    rw [← h.once x, ← List.singleton_append (l := f)]
    simp only [List.count_append, List.count_nil]
    omega
  waiting x hx := by
    have hne : x ≠ pid := fun heq => hx (List.mem_singleton.mpr heq)
    rw [h.waiting x List.not_mem_nil, List.mem_cons, or_iff_right hne]
  fresh x hx hf := by
    refine h.fresh x List.not_mem_nil fun hmem => ?_
    rcases List.mem_cons.mp hmem with rfl | hmem
    · exact hx (List.mem_singleton_self _)
    · exact hf hmem
  between := h.between

/-- A process that waits for a retransmission is taken from its list. -/
theorem takeRetrans (h : HarqInv harqRoundMax [] s a f r) (hpid : pid ∈ r)
    (hl : l.Represents (r.erase pid)) (hlen : l.len = s.retransDlHarq.len) :
    HarqInv harqRoundMax [pid] { s with retransDlHarq := l } a f (r.erase pid) where
  available := h.available
  feedback := h.feedback
  retrans := hl
  feedbackLen := h.feedbackLen
  retransLen := hlen.trans h.retransLen
  lenLe := h.lenLe
  once x := by
    have hcount := count_cons_erase hpid x
    rw [← h.once x]
    simp only [List.count_append, List.count_nil]
    omega
  waiting x _ := h.waiting x List.not_mem_nil
  fresh x hx hf hr := by
    refine h.fresh x List.not_mem_nil hf fun hmem => ?_
    have hne : x ≠ pid := fun heq => hx (List.mem_singleton.mpr heq)
    exact hr ((List.mem_erase_of_ne hne).mpr hmem)
  between x hx := h.between x (List.mem_of_mem_erase hx)

@[simp] theorem harqProcesses_setHarq (harq : NrUeHarq) :
    (s.setHarq pid harq).harqProcesses pid = harq := Function.update_self ..

theorem harqProcesses_setHarq_of_ne {x : ℕ} (hx : x ≠ pid) (harq : NrUeHarq) :
    (s.setHarq pid harq).harqProcesses x = s.harqProcesses x := Function.update_of_ne hx ..

/-- A held process is written. -/
theorem setHarq (h : HarqInv harqRoundMax [pid] s a f r) (harq : NrUeHarq) :
    HarqInv harqRoundMax [pid] (s.setHarq pid harq) a f r where
  available := h.available
  feedback := h.feedback
  retrans := h.retrans
  feedbackLen := h.feedbackLen
  retransLen := h.retransLen
  lenLe := h.lenLe
  once := h.once
  waiting x hx := by
    rw [harqProcesses_setHarq_of_ne fun heq => hx (List.mem_singleton.mpr heq)]
    exact h.waiting x hx
  fresh x hx := by
    rw [harqProcesses_setHarq_of_ne fun heq => hx (List.mem_singleton.mpr heq)]
    exact h.fresh x hx
  between x hx := by
    have hne : x ≠ pid := by
      rintro rfl
      exact h.notMem_of_held.2.2 hx
    rw [harqProcesses_setHarq_of_ne hne]
    exact h.between x hx

/-- A held process becomes free. -/
theorem putAvailable (h : HarqInv harqRoundMax [pid] s a f r)
    (hwaiting : (s.harqProcesses pid).isWaiting = false)
    (hround : (s.harqProcesses pid).round = 0) :
    HarqInv harqRoundMax [] { s with availableDlHarq := s.availableDlHarq.addTail pid }
      (a ++ [pid]) f r where
  available := h.available.addTail h.notMem_of_held.1 (h.lt_len (by simp))
  feedback := h.feedback
  retrans := h.retrans
  feedbackLen := h.feedbackLen.trans (NrList.len_addTail ..).symm
  retransLen := h.retransLen.trans (NrList.len_addTail ..).symm
  lenLe := (NrList.len_addTail ..).trans_le h.lenLe
  once x := by
    rw [NrList.len_addTail, ← h.once x]
    simp only [List.count_append, List.count_nil]
    omega
  waiting x _ := by
    by_cases hx : x = pid
    · subst hx
      simp [hwaiting, h.notMem_of_held.2.1]
    · exact h.waiting x (by simpa using hx)
  fresh x _ hf hr := by
    by_cases hx : x = pid
    · rwa [hx]
    · exact h.fresh x (by simpa using hx) hf hr
  between := h.between

theorem putFeedback (h : HarqInv harqRoundMax [pid] s a f r)
    (hwaiting : (s.harqProcesses pid).isWaiting = true) :
    HarqInv harqRoundMax [] { s with feedbackDlHarq := s.feedbackDlHarq.addTail pid }
      a (f ++ [pid]) r where
  available := h.available
  feedback :=
    h.feedback.addTail h.notMem_of_held.2.1 ((h.lt_len (by simp)).trans_eq h.feedbackLen.symm)
  retrans := h.retrans
  feedbackLen := (NrList.len_addTail ..).trans h.feedbackLen
  retransLen := h.retransLen
  lenLe := h.lenLe
  once x := by
    rw [← h.once x]
    simp only [List.count_append, List.count_nil]
    omega
  waiting x _ := by
    by_cases hx : x = pid
    · subst hx
      simp [hwaiting]
    · rw [h.waiting x (by simpa using hx)]
      simp [hx]
  fresh x _ hf hr := by
    rw [List.mem_append, not_or] at hf
    exact h.fresh x hf.2 hf.1 hr
  between := h.between

theorem putRetrans (h : HarqInv harqRoundMax [pid] s a f r)
    (hwaiting : (s.harqProcesses pid).isWaiting = false)
    (hround : 1 ≤ (s.harqProcesses pid).round.toNat ∧
      (s.harqProcesses pid).round.toNat < harqRoundMax.toNat) :
    HarqInv harqRoundMax [] { s with retransDlHarq := s.retransDlHarq.addTail pid }
      a f (r ++ [pid]) where
  available := h.available
  feedback := h.feedback
  retrans :=
    h.retrans.addTail h.notMem_of_held.2.2 ((h.lt_len (by simp)).trans_eq h.retransLen.symm)
  feedbackLen := h.feedbackLen
  retransLen := (NrList.len_addTail ..).trans h.retransLen
  lenLe := h.lenLe
  once x := by
    rw [← h.once x]
    simp only [List.count_append, List.count_nil]
    omega
  waiting x _ := by
    by_cases hx : x = pid
    · subst hx
      simp [hwaiting, h.notMem_of_held.2.1]
    · exact h.waiting x (by simpa using hx)
  fresh x _ hf hr := by
    rw [List.mem_append, not_or] at hr
    exact h.fresh x hr.2 hf hr.1
  between x hx := by
    rcases List.mem_append.mp hx with hx | hx
    · exact h.between x hx
    · rwa [List.mem_singleton.mp hx]

/-! ### What the functions do -/

theorem finish (h : HarqInv harqRoundMax [pid] s a f r)
    (hwaiting : (s.harqProcesses pid).isWaiting = false) :
    HarqInv harqRoundMax [] (finishNrDlHarq s pid) (a ++ [pid]) f r := by
  have hset :=
    h.setHarq { s.harqProcesses pid with ndi := (s.harqProcesses pid).ndi ^^^ 1, round := 0 }
  refine hset.putAvailable ?_ ?_
  · rw [harqProcesses_setHarq]
    exact hwaiting
  · rw [harqProcesses_setHarq]

theorem abort (h : HarqInv harqRoundMax [pid] s a f r)
    (hwaiting : (s.harqProcesses pid).isWaiting = false) :
    HarqInv harqRoundMax [] (abortNrDlHarq s pid) (a ++ [pid]) f r := by
  have hfinish := h.finish hwaiting
  exact { hfinish with }

/-- The lists that are created for a UE without processes. -/
theorem create (nrof : ℕ) (hnrof : nrof ≤ nrMaxHarqProcesses)
    (hprocesses : ∀ pid, (s.harqProcesses pid).isWaiting = false ∧
    (s.harqProcesses pid).round = 0) :
    HarqInv harqRoundMax []
      { s with
        availableDlHarq := (List.range nrof).foldl NrList.addTail (NrList.create nrof)
        feedbackDlHarq := NrList.create nrof
        retransDlHarq := NrList.create nrof }
      (List.range nrof) [] [] where
  available :=
    (NrList.represents_create nrof).foldl_addTail List.nodup_range fun _ => List.mem_range.mp
  feedback := NrList.represents_create nrof
  retrans := NrList.represents_create nrof
  feedbackLen := (NrList.len_foldl_addTail ..).symm
  retransLen := (NrList.len_foldl_addTail ..).symm
  lenLe := (NrList.len_foldl_addTail ..).trans_le hnrof
  once pid := by
    rw [NrList.len_foldl_addTail]
    simp only [List.nil_append, List.append_nil, List.nodup_range.count, List.mem_range]
    rfl
  waiting pid _ := by simp [hprocesses pid]
  fresh pid _ _ _ := (hprocesses pid).2
  between pid hpid := absurd hpid List.not_mem_nil

/-- Processes are added to longer lists. -/
theorem grow {nrof : ℕ} (h : HarqInv harqRoundMax held s a f r)
    (hmore : s.availableDlHarq.len < nrof)
    (hnrof : nrof ≤ nrMaxHarqProcesses) :
    ∃ la lf lr, s.availableDlHarq.resize nrof = some la ∧ s.feedbackDlHarq.resize nrof = some lf ∧
      s.retransDlHarq.resize nrof = some lr ∧
      HarqInv harqRoundMax held
        { s with
          availableDlHarq := (List.range' s.availableDlHarq.len
            (nrof - s.availableDlHarq.len)).foldl NrList.addTail la
          feedbackDlHarq := lf
          retransDlHarq := lr }
        (a ++ List.range' s.availableDlHarq.len (nrof - s.availableDlHarq.len)) f r := by
  obtain ⟨la, hla, hrepA, hlenA⟩ := h.available.resize hmore.le
  obtain ⟨lf, hlf, hrepF, hlenF⟩ := h.feedback.resize (h.feedbackLen.trans_le hmore.le)
  obtain ⟨lr, hlr, hrepR, hlenR⟩ := h.retrans.resize (h.retransLen.trans_le hmore.le)
  have hnodup : (a ++ List.range' s.availableDlHarq.len (nrof - s.availableDlHarq.len)).Nodup := by
    refine h.available.nodup.append List.nodup_range' fun x hx hx' => ?_
    have hlt := h.available.bound x hx
    have hge := (List.mem_range'_1.mp hx').1
    omega
  have hadd := hrepA.foldl_addTail hnodup fun x hx => by
    have hlt := (List.mem_range'_1.mp hx).2
    omega
  have hlen := NrList.len_foldl_addTail
    (List.range' s.availableDlHarq.len (nrof - s.availableDlHarq.len)) la
  refine ⟨la, lf, lr, hla, hlf, hlr,
    hadd, hrepF, hrepR, ?_, ?_, ?_, fun pid => ?_, h.waiting, h.fresh, h.between⟩
  · rw [hlen, hlenA, hlenF]
  · rw [hlen, hlenA, hlenR]
  · rwa [hlen, hlenA]
  · have hold := h.once pid
    have hnew : (List.range' s.availableDlHarq.len (nrof - s.availableDlHarq.len)).count pid =
        if s.availableDlHarq.len ≤ pid ∧ pid < nrof then 1 else 0 := by
      have hiff : pid ∈ List.range' s.availableDlHarq.len (nrof - s.availableDlHarq.len) ↔
          s.availableDlHarq.len ≤ pid ∧ pid < nrof := by
        rw [List.mem_range'_1]
        omega
      simp only [List.Nodup.count List.nodup_range', hiff]
    rw [hlen, hlenA]
    simp only [List.count_append] at hold ⊢
    rw [hnew]
    split_ifs at hold ⊢ <;> omega

/-- Lists without processes stand for no process at all. -/
theorem eq_nil_of_len (h : HarqInv harqRoundMax held s a f r) (hzero : s.availableDlHarq.len = 0) :
    held = [] ∧ a = [] ∧ f = [] ∧ r = [] := by
  have hnone : ∀ pid, pid ∉ held ++ a ++ f ++ r := by
    intro pid hpid
    have hlt := h.lt_len hpid
    omega
  have hnil := List.eq_nil_iff_forall_not_mem.mpr hnone
  simp only [List.append_eq_nil_iff] at hnil
  obtain ⟨⟨⟨hheld, ha⟩, hf⟩, hr⟩ := hnil
  exact ⟨hheld, ha, hf, hr⟩

/-- Lists are created for a UE whose lists are empty. -/
theorem recreate (h : HarqInv harqRoundMax held s a f r) (hzero : s.availableDlHarq.len = 0)
    (nrof : ℕ) (hnrof : nrof ≤ nrMaxHarqProcesses) :
    HarqInv harqRoundMax held
      { s with
        availableDlHarq := (List.range nrof).foldl NrList.addTail (NrList.create nrof)
        feedbackDlHarq := NrList.create nrof
        retransDlHarq := NrList.create nrof }
      (List.range nrof) f r := by
  obtain ⟨rfl, rfl, rfl, rfl⟩ := h.eq_nil_of_len hzero
  refine create nrof hnrof fun pid => ⟨?_, ?_⟩
  · exact Bool.eq_false_iff.mpr fun hw =>
      List.not_mem_nil ((h.waiting pid List.not_mem_nil).mp hw)
  · exact h.fresh pid List.not_mem_nil List.not_mem_nil List.not_mem_nil

theorem createDlHarqList_inv {scInfo : Option NrUeServingCellInfo} {dci0010 : Bool}
    {t : NrUeSchedCtrl} (h : HarqInv harqRoundMax held s a f r)
    (ht : createDlHarqList scInfo dci0010 s = some t) :
    (∃ a', HarqInv harqRoundMax held t a' f r) ∧ t.harqProcesses = s.harqProcesses := by
  have hlens : s.availableDlHarq.len = s.feedbackDlHarq.len ∧
      s.availableDlHarq.len = s.retransDlHarq.len := ⟨h.feedbackLen.symm, h.retransLen.symm⟩
  simp only [createDlHarqList, if_pos hlens] at ht
  have hnrof := nrofHarq_le scInfo dci0010
  generalize nrofHarq scInfo dci0010 = nrof at ht hnrof
  split_ifs at ht with hzero hsame hmore
  · obtain rfl := Option.some.inj ht
    exact ⟨⟨_, h.recreate hzero nrof hnrof⟩, rfl⟩
  · obtain rfl := Option.some.inj ht
    exact ⟨⟨a, h⟩, rfl⟩
  · obtain ⟨la, lf, lr, hla, hlf, hlr, hgrow⟩ := h.grow hmore hnrof
    simp only [hla, hlf, hlr, Option.bind_eq_bind, Option.bind_some] at ht
    obtain rfl := Option.some.inj ht
    exact ⟨⟨_, hgrow⟩, rfl⟩

/-- The feedback of a process moves it on; no other process starts or stops to wait. -/
theorem handleDlHarq_inv {action : Option (Option NrUeServingCellInfo × Bool)} {success : Bool}
    {t : NrUeSchedCtrl} (h : HarqInv harqRoundMax [pid] s a f r)
    (ht : handleDlHarq harqRoundMax action pid success s = some t) :
    ∃ a' r', HarqInv harqRoundMax [] t a' f r' := by
  have hset := h.setHarq { s.harqProcesses pid with feedbackSlot := 65535, isWaiting := false }
  have hwaiting : ((s.setHarq pid { s.harqProcesses pid with
      feedbackSlot := 65535, isWaiting := false }).harqProcesses pid).isWaiting = false := by
    rw [harqProcesses_setHarq]
  simp only [handleDlHarq] at ht
  split_ifs at ht with hsuccess hlast
  · obtain ⟨u, hu, hfinish⟩ := Option.bind_eq_some_iff.mp ht
    obtain rfl := Option.some.inj hfinish
    cases action with
    | none =>
      obtain rfl := Option.some.inj hu
      exact ⟨_, _, hset.finish hwaiting⟩
    | some action =>
      obtain ⟨⟨a', hu'⟩, hsame⟩ := hset.createDlHarqList_inv hu
      refine ⟨_, _, hu'.finish ?_⟩
      rwa [hsame]
  · obtain rfl := Option.some.inj ht
    exact ⟨_, _, hset.abort hwaiting⟩
  · obtain rfl := Option.some.inj ht
    have hround :
        ((s.harqProcesses pid).round + 1).toNat = (s.harqProcesses pid).round.toNat + 1 := by
      have hmax := harqRoundMax.toNat_lt
      rw [UInt8.toNat_add]
      refine Nat.mod_eq_of_lt ?_
      have hone : (1 : UInt8).toNat = 1 := rfl
      omega
    have hnext := hset.setHarq { s.harqProcesses pid with
      feedbackSlot := 65535, isWaiting := false, round := (s.harqProcesses pid).round + 1 }
    refine ⟨_, _, hnext.putRetrans ?_ ?_⟩
    · rw [harqProcesses_setHarq]
    · rw [harqProcesses_setHarq]
      dsimp only
      rw [hround]
      omega

/-- Missing feedback is always handled. -/
theorem exists_handleDlHarq (harqRoundMax : UInt8) (s : NrUeSchedCtrl) (pid : ℕ) :
    ∃ t, handleDlHarq harqRoundMax none pid false s = some t := by
  by_cases hlast : ((s.harqProcesses pid).round.toNat : ℤ) ≥ harqRoundMax.toNat - 1
  · exact ⟨_, if_pos hlast⟩
  · exact ⟨_, if_neg hlast⟩

/-- The loop of `find_harq` ends, and what it finds is the first process that waits. -/
theorem findHarqFrom_inv {fuel : ℕ} (h : HarqInv harqRoundMax [] s a (pid :: f) r)
    (frame slot : UInt32) (hfuel : f.length < fuel) :
    ∃ t found, findHarqFrom harqRoundMax frame slot fuel pid s = some (t, found) ∧
      ∃ a' f' r', HarqInv harqRoundMax [] t a' f' r' ∧ ∀ pid' ∈ found, f'.head? = some pid' := by
  induction f generalizing pid fuel s a r with
  | nil =>
    obtain ⟨fuel, rfl⟩ := Nat.exists_eq_succ_of_ne_zero (Nat.ne_of_gt hfuel)
    by_cases hpast : (s.harqProcesses pid).past frame slot
    · obtain ⟨l, hl, hrep, hlen⟩ := h.feedback.removeFront
      obtain ⟨t, ht⟩ := exists_handleDlHarq harqRoundMax { s with feedbackDlHarq := l } pid
      obtain ⟨a', r', ht'⟩ := (h.takeFeedback hrep hlen).handleDlHarq_inv ht
      refine ⟨t, none, ?_, a', [], r', ht', by simp⟩
      simp [findHarqFrom, hpast, hl, ht, ht'.feedback.head]
    · by_cases hfuture : (s.harqProcesses pid).future frame slot
      · exact ⟨s, none, by simp [findHarqFrom, hpast, hfuture], a, [pid], r, h, by simp⟩
      · exact ⟨s, some pid, by simp [findHarqFrom, hpast, hfuture], a, [pid], r, h, by simp⟩
  | cons next f ih =>
    obtain ⟨fuel, rfl⟩ := Nat.exists_eq_succ_of_ne_zero (Nat.ne_of_gt (Nat.zero_lt_of_lt hfuel))
    by_cases hpast : (s.harqProcesses pid).past frame slot
    · obtain ⟨l, hl, hrep, hlen⟩ := h.feedback.removeFront
      obtain ⟨u, hu⟩ := exists_handleDlHarq harqRoundMax { s with feedbackDlHarq := l } pid
      obtain ⟨a', r', hu'⟩ := (h.takeFeedback hrep hlen).handleDlHarq_inv hu
      obtain ⟨t, found, hrun, hinv⟩ := ih hu' (Nat.lt_of_succ_lt_succ hfuel)
      refine ⟨t, found, ?_, hinv⟩
      simp [findHarqFrom, hpast, hl, hu, hu'.feedback.head, hrun]
    · by_cases hfuture : (s.harqProcesses pid).future frame slot
      · exact ⟨s, none, by simp [findHarqFrom, hpast, hfuture], a, _, r, h, by simp⟩
      · exact ⟨s, some pid, by simp [findHarqFrom, hpast, hfuture], a, _, r, h, by simp⟩

theorem findHarq_inv (h : HarqInv harqRoundMax [] s a f r) (frame slot : UInt32) :
    ∃ t found, findHarq harqRoundMax frame slot s = some (t, found) ∧
      ∃ a' f' r', HarqInv harqRoundMax [] t a' f' r' ∧ ∀ pid' ∈ found, f'.head? = some pid' := by
  cases f with
  | nil => exact ⟨s, none, by simp [findHarq, h.feedback.head], a, [], r, h, by simp⟩
  | cons pid f =>
    obtain ⟨t, found, hrun, hinv⟩ := h.findHarqFrom_inv frame slot h.feedback.length_le
    exact ⟨t, found, by simp [findHarq, h.feedback.head, hrun], hinv⟩

theorem handleHarqBits_inv {frame slot : UInt32} {bits : List HarqBit} {t : NrUeSchedCtrl}
    (h : HarqInv harqRoundMax [] s a f r)
    (ht : handleHarqBits harqRoundMax frame slot bits s = some t) :
    ∃ a' f' r', HarqInv harqRoundMax [] t a' f' r' := by
  induction bits generalizing s a f r with
  | nil =>
    obtain rfl := Option.some.inj ht
    exact ⟨a, f, r, h⟩
  | cons bit bits ih =>
    obtain ⟨u, found, hu, a₁, f₁, r₁, h₁, hfound⟩ := h.findHarq_inv frame slot
    simp only [handleHarqBits, hu, Option.bind_eq_bind, Option.bind_some] at ht
    cases found with
    | none =>
      obtain rfl := Option.some.inj ht
      exact ⟨a₁, f₁, r₁, h₁⟩
    | some pid =>
      obtain ⟨f₂, rfl⟩ := List.head?_eq_some_iff.mp (hfound pid rfl)
      obtain ⟨l, hl, hrep, hlen⟩ := h₁.feedback.removeFront
      have hhead : u.feedbackDlHarq.head = some pid := h₁.feedback.head
      simp only [hhead, hl, Option.bind_some] at ht
      split_ifs at ht with hwaiting
      obtain ⟨v, hv, hrest⟩ := Option.bind_eq_some_iff.mp ht
      obtain ⟨a₃, r₃, h₃⟩ := (h₁.takeFeedback hrep hlen).handleDlHarq_inv hv
      exact ih h₃ hrest

/-- A process is taken for a transmission. -/
theorem takeDlHarq_inv {dlHarqPid : Option ℕ} {t : NrUeSchedCtrl}
    (h : HarqInv harqRoundMax [] s a f r) (ht : takeDlHarq dlHarqPid s = some (pid, t)) :
    ∃ a' f' r', HarqInv harqRoundMax [pid] t a' f' r' := by
  unfold takeDlHarq at ht
  cases dlHarqPid with
  | none =>
    dsimp only at ht
    rw [h.available.head] at ht
    cases a with
    | nil => simp at ht
    | cons x a =>
      obtain ⟨l, hl, hrep, hlen⟩ := h.available.removeFront
      simp only [hl, List.head?_cons, Option.bind_eq_bind, Option.bind_some] at ht
      obtain ⟨rfl, rfl⟩ := Prod.mk.inj (Option.some.inj ht)
      have hrep' : l.Represents ((x :: a).erase x) := by rwa [List.erase_cons_head]
      exact ⟨_, f, r, h.takeAvailable (List.mem_cons_self ..) hrep' hlen⟩
  | some x =>
    dsimp only at ht
    split_ifs at ht with hround
    · by_cases hx : x ∈ a
      · obtain ⟨l, hl, hrep, hlen⟩ := h.available.remove hx
        simp only [hl, Option.bind_eq_bind, Option.bind_some] at ht
        obtain ⟨rfl, rfl⟩ := Prod.mk.inj (Option.some.inj ht)
        exact ⟨_, f, r, h.takeAvailable hx hrep hlen⟩
      · simp [NrList.remove_eq_none h.available hx] at ht
    · by_cases hx : x ∈ r
      · obtain ⟨l, hl, hrep, hlen⟩ := h.retrans.remove hx
        simp only [hl, Option.bind_eq_bind, Option.bind_some] at ht
        obtain ⟨rfl, rfl⟩ := Prod.mk.inj (Option.some.inj ht)
        exact ⟨a, f, _, h.takeRetrans hx hrep hlen⟩
      · simp [NrList.remove_eq_none h.retrans hx] at ht

theorem setupDlHarqProcess_inv {dlHarqPid : Option ℕ} {pucchAllocation : Option (UInt16 × UInt16)}
    {t : NrUeSchedCtrl} (h : HarqInv harqRoundMax [] s a f r)
    (ht : setupDlHarqProcess dlHarqPid pucchAllocation s = some t) :
    ∃ a' f' r', HarqInv harqRoundMax [] t a' f' r' := by
  obtain ⟨⟨pid, u⟩, hu, ht⟩ := Option.bind_eq_some_iff.mp ht
  obtain ⟨a₁, f₁, r₁, h₁⟩ := h.takeDlHarq_inv hu
  dsimp only at ht
  split_ifs at ht with hwaiting
  rw [Bool.not_eq_true] at hwaiting
  cases pucchAllocation with
  | none =>
    obtain rfl := Option.some.inj ht
    exact ⟨_, _, _, h₁.finish hwaiting⟩
  | some alloc =>
    obtain rfl := Option.some.inj ht
    refine ⟨_, _, _, (h₁.setHarq _).putFeedback ?_⟩
    rw [harqProcesses_setHarq]

theorem moveAll_eq {src dst : NrList} {xs ys : List ℕ} {fuel : ℕ} (hsrc : src.Represents xs)
    (hdst : dst.Represents ys) (hnodup : (ys ++ xs).Nodup) (hlt : ∀ x ∈ xs, x < dst.len)
    (hfuel : xs.length < fuel) :
    ∃ src' dst', moveAll fuel src dst = some (src', dst') ∧ src'.Represents [] ∧
      src'.len = src.len ∧ dst'.Represents (ys ++ xs) ∧ dst'.len = dst.len := by
  induction xs generalizing src dst ys fuel with
  | nil =>
    obtain ⟨fuel, rfl⟩ := Nat.exists_eq_succ_of_ne_zero (Nat.ne_of_gt hfuel)
    refine ⟨src, dst, by simp [moveAll, hsrc.head], hsrc, rfl, ?_, rfl⟩
    rwa [List.append_nil]
  | cons x xs ih =>
    obtain ⟨fuel, rfl⟩ := Nat.exists_eq_succ_of_ne_zero (Nat.ne_of_gt (Nat.zero_lt_of_lt hfuel))
    obtain ⟨l, hl, hrep, hlen⟩ := hsrc.removeFront
    have hx : x ∉ ys := fun hmem =>
      (List.nodup_append.mp hnodup).2.2 x hmem x (List.mem_cons_self ..) rfl
    have hadd := hdst.addTail hx (hlt x (List.mem_cons_self ..))
    rw [List.append_cons] at hnodup ⊢
    obtain ⟨src', dst', hrun, hsrc', hlen', hdst', hlen''⟩ :=
      ih hrep hadd hnodup
        (fun y hy => (hlt y (List.mem_cons_of_mem _ hy)).trans_eq (NrList.len_addTail ..).symm)
        (Nat.lt_of_succ_lt_succ hfuel)
    refine ⟨src', dst', ?_, hsrc', hlen'.trans hlen, hdst', hlen''.trans (NrList.len_addTail ..)⟩
    simp [moveAll, hsrc.head, hl, hrun]

/-- A reset frees all processes. -/
theorem resetDlHarqList_inv (h : HarqInv harqRoundMax [] s a f r) :
    ∃ t, resetDlHarqList s = some t ∧ HarqInv harqRoundMax [] t (a ++ f ++ r) [] [] := by
  have hnodup : (a ++ f ++ r).Nodup := by
    refine List.nodup_iff_count_le_one.mpr fun pid => ?_
    have hle := h.count_le pid
    simp only [List.count_append, List.count_nil] at hle ⊢
    omega
  have hlt : ∀ pid ∈ a ++ f ++ r, pid < s.availableDlHarq.len := fun pid hpid => h.lt_len hpid
  obtain ⟨lf, la, hrunF, hrepF, hlenF, hrepA, hlenA⟩ :=
    moveAll_eq h.feedback h.available (hnodup.of_append_left) (fun x hx => hlt x (by simp [hx]))
      (Nat.lt_succ_of_le h.feedback.length_le)
  obtain ⟨lr, la', hrunR, hrepR, hlenR, hrepA', hlenA'⟩ :=
    moveAll_eq h.retrans hrepA hnodup (fun x hx => (hlt x (by simp [hx])).trans_eq hlenA.symm)
      (Nat.lt_succ_of_le h.retrans.length_le)
  have hlen := hlenA'.trans hlenA
  have hreset : resetDlHarqList s = some { s with
      availableDlHarq := la'
      feedbackDlHarq := lf
      retransDlHarq := lr
      harqProcesses := fun i =>
        if i < nrMaxHarqProcesses then
          { s.harqProcesses i with feedbackSlot := 65535, round := 0, isWaiting := false }
        else s.harqProcesses i } := by
    simp only [resetDlHarqList, hrunF, hrunR, Option.bind_eq_bind, Option.bind_some]
  refine ⟨_, hreset, hrepA', hrepF, hrepR, ?_, ?_, ?_, fun pid => ?_, fun pid _ => ?_,
    fun pid _ _ _ => ?_, by simp⟩
  · exact (hlenF.trans h.feedbackLen).trans hlen.symm
  · exact (hlenR.trans h.retransLen).trans hlen.symm
  · exact hlen.trans_le h.lenLe
  · have honce := h.once pid
    rw [hlen, ← honce]
    simp
  · by_cases hpid : pid < nrMaxHarqProcesses
    · simp [hpid]
    · -- no process has such a number
      have hnot : pid ∉ f := fun hmem => hpid ((hlt pid (by simp [hmem])).trans_le h.lenLe)
      simp [hpid, h.waiting pid, hnot]
  · by_cases hpid : pid < nrMaxHarqProcesses
    · simp [hpid]
    · have hnot : pid ∉ a ++ f ++ r := fun hmem => hpid ((hlt pid hmem).trans_le h.lenLe)
      simp only [List.mem_append, not_or] at hnot
      simp [hpid, h.fresh pid List.not_mem_nil hnot.1.2 hnot.2]

end HarqInv

namespace HarqInv

variable {harqRoundMax : UInt8} {a f r : List ℕ} {s : NrUeSchedCtrl} {pid : ℕ}

end HarqInv

/-! ### Runs -/

/-- A UE whose processes were just created. -/
def HarqStart (s : NrUeSchedCtrl) : Prop :=
  ∃ scInfo dci0010, createDlHarqList scInfo dci0010 .zero = some s

theorem HarqStart.inv {harqRoundMax : UInt8} {s : NrUeSchedCtrl} (h : HarqStart s) :
    ∃ a f r, HarqInv harqRoundMax [] s a f r := by
  obtain ⟨scInfo, dci0010, hs⟩ := h
  obtain rfl := Option.some.inj hs
  exact ⟨_, _, _, HarqInv.create (nrofHarq scInfo dci0010) (nrofHarq_le scInfo dci0010)
    fun _ => ⟨rfl, rfl⟩⟩

/-- What happens to the processes keeps the invariant. -/
theorem HarqOp.run_inv {harqRoundMax : UInt8} {s t : NrUeSchedCtrl} {a f r : List ℕ} (op : HarqOp)
    (h : HarqInv harqRoundMax [] s a f r) (ht : op.run harqRoundMax s = some t) :
    ∃ a' f' r', HarqInv harqRoundMax [] t a' f' r' := by
  cases op with
  | configure scInfo dci0010 =>
    obtain ⟨⟨a', h'⟩, -⟩ := h.createDlHarqList_inv ht
    exact ⟨a', f, r, h'⟩
  | transmit dlHarqPid pucchAllocation => exact h.setupDlHarqProcess_inv ht
  | feedback frame slot bits => exact h.handleHarqBits_inv ht
  | reset =>
    obtain ⟨u, hu, h'⟩ := h.resetDlHarqList_inv
    obtain rfl := Option.some.inj (hu.symm.trans ht)
    exact ⟨_, _, _, h'⟩

/-- The processes of a UE are shared out among the three lists. -/
structure HarqPartition (harqRoundMax : UInt8) (s : NrUeSchedCtrl) (a f r : List ℕ) : Prop where
  available : s.availableDlHarq.Represents a
  feedback : s.feedbackDlHarq.Represents f
  retrans : s.retransDlHarq.Represents r
  once : ∀ pid < s.availableDlHarq.len, (a ++ f ++ r).count pid = 1
  only : ∀ pid ∈ a ++ f ++ r, pid < s.availableDlHarq.len
  waiting : ∀ pid < s.availableDlHarq.len, (s.harqProcesses pid).isWaiting = true ↔ pid ∈ f
  fresh : ∀ pid ∈ a, (s.harqProcesses pid).round = 0
  between : ∀ pid ∈ r, 1 ≤ (s.harqProcesses pid).round.toNat ∧
    (s.harqProcesses pid).round.toNat ≤ harqRoundMax.toNat - 1

theorem HarqInv.partition {harqRoundMax : UInt8} {s : NrUeSchedCtrl} {a f r : List ℕ}
    (h : HarqInv harqRoundMax [] s a f r) : HarqPartition harqRoundMax s a f r where
  available := h.available
  feedback := h.feedback
  retrans := h.retrans
  once pid hpid := by
    have honce := h.once pid
    rwa [List.nil_append, if_pos hpid] at honce
  only _ hpid := h.lt_len hpid
  waiting pid _ := h.waiting pid List.not_mem_nil
  fresh pid hpid := by
    have hle := h.count_le pid
    have hpos := List.count_pos_iff.mpr hpid
    refine h.fresh pid List.not_mem_nil ?_ ?_ <;>
      · rw [← List.count_eq_zero]
        omega
  between pid hpid := by
    have hround := h.between pid hpid
    omega

def HarqStep (harqRoundMax : UInt8) (op : HarqOp) (s t : NrUeSchedCtrl) : Prop :=
  op.run harqRoundMax s = some t

/-- In every state that is reached, every process stands once in exactly one of the lists, waits
exactly if it stands in the feedback list, and has a round that fits its list; and the loops over
the lists end. -/
theorem dlHarq_partition {harqRoundMax : UInt8} {ops : List HarqOp} {s : NrUeSchedCtrl}
    (h : Reach (HarqStep harqRoundMax) HarqStart ops s) :
    (∃ a f r, HarqPartition harqRoundMax s a f r) ∧
      (∀ frame slot, (findHarq harqRoundMax frame slot s).isSome) ∧ (resetDlHarqList s).isSome := by
  obtain ⟨a, f, r, hinv⟩ : ∃ a f r, HarqInv harqRoundMax [] s a f r :=
    h.invariant (fun _ hs => hs.inv) fun op _ _ ⟨_, _, _, hinv⟩ hstep => op.run_inv hinv hstep
  refine ⟨⟨a, f, r, hinv.partition⟩, fun frame slot => ?_, ?_⟩
  · obtain ⟨t, found, hfind, -⟩ := hinv.findHarq_inv frame slot
    rw [hfind]
    rfl
  · obtain ⟨t, hreset, -⟩ := hinv.resetDlHarqList_inv
    rw [hreset]
    rfl

def eightProcesses : NrUeSchedCtrl := (createDlHarqList none false .zero).getD .zero

/-- A process is used, its feedback is missed, and it is transmitted again and acknowledged, while
feedback is disabled for another process. -/
def missedFeedback : List HarqOp :=
  [.transmit none (some (10, 3)), .transmit none none, .feedback 11 0 [⟨true, none⟩],
    .transmit (some 0) (some (12, 3)), .feedback 12 3 [⟨true, none⟩]]

theorem dlHarq_partition_missedFeedback :
    ∃ s, missedFeedback.foldlM (fun s op => HarqOp.run 4 op s) eightProcesses = some s ∧
      (∃ a f r, HarqPartition 4 s a f r) ∧ s.availableDlHarq.tail = some 0 := by
  obtain ⟨s, hs⟩ : ∃ s, missedFeedback.foldlM (fun s op => HarqOp.run 4 op s) eightProcesses =
      some s :=
    ⟨_, rfl⟩
  have htail : (missedFeedback.foldlM (fun s op => HarqOp.run 4 op s) eightProcesses).map
      (fun s => s.availableDlHarq.tail) = some (some 0) := rfl
  rw [hs] at htail
  have hstart : Reach (HarqStep 4) HarqStart [] eightProcesses := .start ⟨none, false, rfl⟩
  have hstep : ∀ op ∈ missedFeedback, ∀ s t, HarqOp.run 4 op s = some t → HarqStep 4 op s t :=
    fun _ _ _ _ hrun => hrun
  have hreach := hstart.append_foldlM hstep hs
  exact ⟨s, hs, (dlHarq_partition hreach).1, Option.some.inj htail⟩

end LlmHric.Mac
