import LlmHric.Flexric.ArrayExtent
import Mathlib.Data.List.Basic
import Mathlib.Data.List.Induction
import Mathlib.Tactic.Common
import Mathlib.Tactic.SplitIfs

/-! The gNB keeps the report subscriptions of the RIC in three arrays, one for each RAN parameter it
can report. A subscription inserts an entry for every parameter of its list, and the signals of the
RRC go through an array and send an indication for every entry whose event trigger matches. Removing
a subscription erases one entry of each array.

The arrays are lists here, in the order of insertion, each with the extent of its block. -/

namespace LlmHric.E2smRc

open Flexric

/-- The message of a message event (9.2.1.1.1): any message of a network interface, or an RRC
message of an LTE or NR class. -/
inductive MsgEvType
  | networkInterface (niType : ℕ)
  | lteRrc (rrcClass rrcMsgId : ℕ)
  | nrRrc (rrcClass rrcMsgId : ℕ)
  deriving DecidableEq

/-- A message event. -/
structure MsgEvTrg where
  evTriggerCondId : ℕ
  msgType : MsgEvType
  deriving DecidableEq

/-- An RRC state (9.3.37). -/
inductive RrcState
  | connected
  | inactive
  | idle
  | any
  deriving DecidableEq

/-- A change of UE information (9.2.1.1.4), with its list of RRC states. -/
structure UeInfoChng where
  evTrigCondId : ℕ
  rrcState : List RrcState
  deriving DecidableEq

/-- An event trigger definition. The formats that no report style uses keep no content. -/
inductive EventTrigger
  | frmt1 (msgEvTrg : List MsgEvTrg)
  | frmt2
  | frmt3
  | frmt4 (ueInfoChng : List UeInfoChng)
  | frmt5
  deriving DecidableEq

/-- The value of the format enumeration. -/
def EventTrigger.format : EventTrigger → ℕ
  | frmt1 _ => 0
  | frmt2 => 1
  | frmt3 => 2
  | frmt4 _ => 3
  | frmt5 => 4

/-! ### The arrays -/

/-- `E2SM_RC_RS1_RRC_MESSAGE`. -/
def rs1RrcMessage : ℕ := 3

/-- `E2SM_RC_RS1_UE_ID`. -/
def rs1UeId : ℕ := 4

/-- `E2SM_RC_RS4_RRC_STATE_CHANGED_TO`. -/
def rs4RrcStateChangedTo : ℕ := 202

/-- `ran_param_data_t`. -/
structure RanParamData where
  ricReqId : ℕ
  evTr : EventTrigger
  deriving DecidableEq

/-- The names of the arrays. -/
inductive RsArray
  | rs1Param3
  | rs1Param4
  | rs4Param202
  deriving DecidableEq

/-- `sizeof(ran_param_data_t)`. -/
def ranParamDataSize : ℕ := 40

/-- `rc_subs_data_t`, with the blocks of the arrays. -/
structure RcSubsData where
  rs1Param3 : List RanParamData
  rs1Param4 : List RanParamData
  rs4Param202 : List RanParamData
  block : RsArray → Extent

namespace RcSubsData

/-- `init_rc_subs_data`. -/
def init : RcSubsData := ⟨[], [], [], fun _ => .init ranParamDataSize⟩

/-- An array by its name. -/
def array (data : RcSubsData) : RsArray → List RanParamData
  | .rs1Param3 => data.rs1Param3
  | .rs1Param4 => data.rs1Param4
  | .rs4Param202 => data.rs4Param202

/-- `insert_rc_subs_data`. -/
def insert (data : RcSubsData) (sa : RsArray) (entry : RanParamData) : RcSubsData :=
  let block := Function.update data.block sa ((data.block sa).step ranParamDataSize .push)
  match sa with
  | .rs1Param3 => { data with rs1Param3 := data.rs1Param3 ++ [entry], block }
  | .rs1Param4 => { data with rs1Param4 := data.rs1Param4 ++ [entry], block }
  | .rs4Param202 => { data with rs4Param202 := data.rs4Param202 ++ [entry], block }

end RcSubsData

/-- The first entry with the id is erased. -/
def eraseRicReqId (ricReqId : ℕ) (sa : List RanParamData) : List RanParamData :=
  sa.eraseP fun e => ricReqId == e.ricReqId

/-- `remove_rc_subs_data`, called by `free_aperiodic_subscription`. -/
def removeRcSubsData (data : RcSubsData) (ricReqId : ℕ) : RcSubsData where
  rs1Param3 := eraseRicReqId ricReqId data.rs1Param3
  rs1Param4 := eraseRicReqId ricReqId data.rs1Param4
  rs4Param202 := eraseRicReqId ricReqId data.rs4Param202
  block := fun sa =>
    if (data.array sa).any fun e => ricReqId == e.ricReqId then
      (data.block sa).step ranParamDataSize .pop
    else data.block sa

/-- `get_sa`. -/
def getSa (evTr : EventTrigger) (ranParamId : ℕ) : Option RsArray :=
  match evTr with
  | .frmt1 _ =>
    if ranParamId = rs1RrcMessage then some .rs1Param3
    else if ranParamId = rs1UeId then some .rs1Param4
    else none
  | .frmt4 _ => if ranParamId = rs4RrcStateChangedTo then some .rs4Param202 else none
  | _ => none

/-- `get_list_for_report_style`: one entry for every parameter of the list. -/
def getListForReportStyle (ricReqId : ℕ) (evTr : EventTrigger) (data : RcSubsData)
    (paramDef : List ℕ) : RcSubsData :=
  paramDef.foldl
    (fun data ranParamId =>
      match getSa evTr ranParamId with
      | none => data
      | some sa => data.insert sa ⟨ricReqId, evTr⟩)
    data

/-- An action definition: the format, counted from 1, the report style and, in format 1, the ids of
the parameters to report. -/
structure ActionDef where
  format : ℕ
  ricStyleType : ℕ
  paramReportDef : List ℕ
  deriving DecidableEq

/-- `wr_rc_sub_data_t`. -/
structure WrRcSubData where
  ricReqId : ℕ
  et : EventTrigger
  ad : ActionDef
  deriving DecidableEq

/-- What `write_subs_rc_sm` answers: nothing, or how to remove the subscription. -/
inductive SmAgIfAns
  | empty
  | aperiodicSubscription
  deriving DecidableEq

/-- `write_subs_rc_sm`. -/
def writeSubsRcSm (data : RcSubsData) (wr : WrRcSubData) : RcSubsData × SmAgIfAns :=
  if wr.ad.format = 1 then
    if wr.et.format + 1 ≠ wr.ad.ricStyleType then (data, .empty)
    else
      (getListForReportStyle wr.ricReqId wr.et data wr.ad.paramReportDef, .aperiodicSubscription)
  else (data, .empty)

/-- The signals that the RRC sends to the RAN function. -/
inductive RcSignal
  | ueId (msgClass msgId : ℕ)
  | rrcStateChangedTo (rrcState : RrcState)
  | rrcMsg (nrChannel rrcMsgId : ℕ)

/-- An indication: the subscription and the condition of its trigger. -/
structure RcIndication where
  ricReqId : ℕ
  condId : ℕ
  deriving DecidableEq

/-- `check_ue_id_cond`. -/
def checkUeIdCond (msgClass msgId : ℕ) (entry : RanParamData) : List RcIndication :=
  match entry.evTr with
  | .frmt1 items =>
    (items.filter fun item =>
      item.msgType == .nrRrc msgClass msgId || item.msgType == .networkInterface msgClass).map
      fun item => ⟨entry.ricReqId, item.evTriggerCondId⟩
  | _ => []

/-- `check_rrc_state`. -/
def checkRrcState (rrcState : RrcState) (entry : RanParamData) : List RcIndication :=
  match entry.evTr with
  | .frmt4 items =>
    items.flatMap fun item =>
      (item.rrcState.filter fun state => state == rrcState || state == .any).map
        fun _ => ⟨entry.ricReqId, item.evTrigCondId⟩
  | _ => []

/-- `check_rrc_msg_copy`. -/
def checkRrcMsgCopy (nrChannel rrcMsgId : ℕ) (entry : RanParamData) : List RcIndication :=
  match entry.evTr with
  | .frmt1 items =>
    (items.filter fun item => item.msgType == .nrRrc nrChannel rrcMsgId).map
      fun item => ⟨entry.ricReqId, item.evTriggerCondId⟩
  | _ => []

/-- The indications of a signal: `signal_ue_id`, `signal_rrc_state_changed_to` and
`signal_rrc_msg`. -/
def RcSubsData.emit (data : RcSubsData) : RcSignal → List RcIndication
  | .ueId msgClass msgId => data.rs1Param4.flatMap (checkUeIdCond msgClass msgId)
  | .rrcStateChangedTo rrcState => data.rs4Param202.flatMap (checkRrcState rrcState)
  | .rrcMsg nrChannel rrcMsgId => data.rs1Param3.flatMap (checkRrcMsgCopy nrChannel rrcMsgId)

/-- A call of the E2 agent. -/
inductive RcCall
  | write (wr : WrRcSubData)
  | free (ricReqId : ℕ)

/-- The arrays after a call. -/
def RcSubsData.call (data : RcSubsData) : RcCall → RcSubsData
  | .write wr => (writeSubsRcSm data wr).1
  | .free ricReqId => removeRcSubsData data ricReqId

/-- The arrays after a sequence of calls. -/
def rcRun (calls : List RcCall) : RcSubsData := calls.foldl RcSubsData.call .init

/-- The id is in no array, and no signal sends an indication for it. -/
structure NoTrace (data : RcSubsData) (ricReqId : ℕ) : Prop where
  entries : ∀ sa, ∀ e ∈ data.array sa, e.ricReqId ≠ ricReqId
  signals : ∀ signal, ∀ ind ∈ data.emit signal, ind.ricReqId ≠ ricReqId

def Removed (calls : List RcCall) (ricReqId : ℕ) : Prop :=
  ∃ before after, calls = before ++ .free ricReqId :: after ∧
    ∀ wr, .write wr ∈ after → wr.ricReqId ≠ ricReqId

/-- How many entries of an array a call asks for. -/
def WrRcSubData.requests (wr : WrRcSubData) (sa : RsArray) : ℕ :=
  if wr.ad.format = 1 ∧ wr.et.format + 1 = wr.ad.ricStyleType then
    wr.ad.paramReportDef.countP fun ranParamId => getSa wr.et ranParamId == some sa
  else 0

/-- How the requests for an id go up with a call, or end with its removal. -/
def tally (ricReqId : ℕ) (sa : RsArray) (n : ℕ) : RcCall → ℕ
  | .write wr => if wr.ricReqId = ricReqId then n + wr.requests sa else n
  | .free id => if id = ricReqId then 0 else n

/-- How often an array was requested for an id since the id was last removed. -/
def outstanding (ricReqId : ℕ) (sa : RsArray) (calls : List RcCall) : ℕ :=
  calls.foldl (tally ricReqId sa) 0

/-- No array has left its block. -/
def RcSubsData.Intact (data : RcSubsData) : Prop := ∀ sa, (data.block sa).intact = true

/-- What a call does to an array after some others: every entry that a call asks for is pushed, and
one is erased for an id of which an entry is outstanding. -/
def RcCall.arraySteps (sa : RsArray) (before : List RcCall) : RcCall → List ArrayStep
  | .write wr => List.replicate (wr.requests sa) .push
  | .free ricReqId => if outstanding ricReqId sa before = 0 then [] else [.pop]

def arraySteps (sa : RsArray) (calls : List RcCall) : List ArrayStep :=
  (calls.foldl (fun s c => (s.1 ++ [c], s.2 ++ c.arraySteps sa s.1)) (([], []) : _ × _)).2

/-! ### What the calls do to the entries of an id -/

def RcSubsData.entriesOf (data : RcSubsData) (sa : RsArray) (ricReqId : ℕ) : ℕ :=
  (data.array sa).countP fun e => ricReqId == e.ricReqId

section Entries

variable {data : RcSubsData} {sa : RsArray} {id : ℕ}

theorem entriesOf_insert (data : RcSubsData) (sa sa' : RsArray) (entry : RanParamData) (id : ℕ) :
    (data.insert sa' entry).entriesOf sa id =
      data.entriesOf sa id + if sa' = sa ∧ id = entry.ricReqId then 1 else 0 := by
  cases sa <;> cases sa' <;>
    simp [RcSubsData.entriesOf, RcSubsData.insert, RcSubsData.array, List.countP_append,
      List.countP_cons]

theorem entriesOf_getListForReportStyle (ricReqId : ℕ) (evTr : EventTrigger) (data : RcSubsData)
    (paramDef : List ℕ) (sa : RsArray) (id : ℕ) :
    (getListForReportStyle ricReqId evTr data paramDef).entriesOf sa id =
      data.entriesOf sa id +
        if ricReqId = id then paramDef.countP fun p => getSa evTr p == some sa else 0 := by
  unfold getListForReportStyle
  induction paramDef generalizing data with
  | nil => simp
  | cons p paramDef ih =>
    rw [List.foldl_cons, ih, List.countP_cons]
    cases hsa : getSa evTr p with
    | none => simp
    | some sa' =>
      dsimp only
      rw [entriesOf_insert]
      by_cases hid : ricReqId = id
      · by_cases heq : sa' = sa
        · simp [hid, heq]
          omega
        · simp [hid, heq]
      · simp [hid, Ne.symm hid]

theorem entriesOf_write (data : RcSubsData) (wr : WrRcSubData) (sa : RsArray) (id : ℕ) :
    (data.call (.write wr)).entriesOf sa id = tally id sa (data.entriesOf sa id) (.write wr) := by
  unfold RcSubsData.call tally writeSubsRcSm WrRcSubData.requests
  dsimp only
  by_cases hformat : wr.ad.format = 1
  · by_cases hstyle : wr.et.format + 1 = wr.ad.ricStyleType
    · simp only [hformat, hstyle, ne_eq, not_true_eq_false, if_false, if_true, and_self,
        entriesOf_getListForReportStyle]
      split_ifs
      · rfl
      · rfl
    · simp [hformat, hstyle]
  · simp [hformat]

theorem array_removeRcSubsData (data : RcSubsData) (ricReqId : ℕ) (sa : RsArray) :
    (removeRcSubsData data ricReqId).array sa = eraseRicReqId ricReqId (data.array sa) := by
  cases sa with
  | rs1Param3 => rfl
  | rs1Param4 => rfl
  | rs4Param202 => rfl

/-- A removal takes one entry of the id. -/
theorem entriesOf_free (data : RcSubsData) (ricReqId : ℕ) (sa : RsArray) (id : ℕ) :
    (data.call (.free ricReqId)).entriesOf sa id =
      if ricReqId = id then data.entriesOf sa id - 1 else data.entriesOf sa id := by
  unfold RcSubsData.call RcSubsData.entriesOf
  rw [array_removeRcSubsData]
  unfold eraseRicReqId
  induction data.array sa with
  | nil => simp
  | cons e l ih =>
    by_cases he : ricReqId = e.ricReqId
    · rw [List.eraseP_cons_of_pos (by simp [he]), List.countP_cons]
      by_cases hid : ricReqId = id
      · simp [← hid, he]
      · simp [hid, ← he, Ne.symm hid]
    · rw [List.eraseP_cons_of_neg (by simp [he]), List.countP_cons, List.countP_cons, ih]
      by_cases hid : ricReqId = id
      · rw [if_pos hid, if_pos hid, ← hid]
        simp [he]
      · rw [if_neg hid, if_neg hid]

theorem entriesOf_eq_zero : data.entriesOf sa id = 0 ↔ ∀ e ∈ data.array sa, e.ricReqId ≠ id := by
  unfold RcSubsData.entriesOf
  rw [List.countP_eq_zero]
  simp only [beq_iff_eq]
  exact forall₂_congr fun e _ => ne_comm

theorem block_insert (data : RcSubsData) (sa sa' : RsArray) (entry : RanParamData) :
    (data.insert sa' entry).block sa =
      if sa' = sa then (data.block sa).step ranParamDataSize .push else data.block sa := by
  have hblock : (data.insert sa' entry).block =
      Function.update data.block sa' ((data.block sa').step ranParamDataSize .push) := by
    cases sa' <;> rfl
  rw [hblock, Function.update_apply]
  by_cases heq : sa' = sa
  · subst heq
    rw [if_pos rfl]
  · rw [if_neg heq, if_neg (Ne.symm heq)]

theorem block_getListForReportStyle (ricReqId : ℕ) (evTr : EventTrigger) (data : RcSubsData)
    (paramDef : List ℕ) (sa : RsArray) :
    (getListForReportStyle ricReqId evTr data paramDef).block sa =
      (List.replicate (paramDef.countP fun p => getSa evTr p == some sa) .push).foldl
        (Extent.step ranParamDataSize) (data.block sa) := by
  unfold getListForReportStyle
  induction paramDef generalizing data with
  | nil => rfl
  | cons p paramDef ih =>
    rw [List.foldl_cons, ih, List.countP_cons]
    cases hsa : getSa evTr p with
    | none => simp
    | some sa' =>
      dsimp only
      rw [block_insert]
      by_cases heq : sa' = sa
      · simp [heq, List.replicate_succ]
      · simp [heq]

theorem block_call (c : RcCall) {before : List RcCall}
    (h : ∀ id, data.entriesOf sa id = outstanding id sa before) :
    (data.call c).block sa =
      (c.arraySteps sa before).foldl (Extent.step ranParamDataSize) (data.block sa) := by
  cases c with
  | write wr =>
    simp only [RcSubsData.call, writeSubsRcSm, RcCall.arraySteps, WrRcSubData.requests]
    by_cases hformat : wr.ad.format = 1
    · by_cases hstyle : wr.et.format + 1 = wr.ad.ricStyleType
      · simp [hformat, hstyle, block_getListForReportStyle]
      · simp [hformat, hstyle]
    · simp [hformat]
  | free ricReqId =>
    have hany : (data.array sa).any (fun e => ricReqId == e.ricReqId) = true ↔
        ¬ outstanding ricReqId sa before = 0 := by
      rw [← h, RcSubsData.entriesOf, List.countP_eq_zero, List.any_eq_true]
      push Not
      rfl
    simp only [RcSubsData.call, removeRcSubsData, RcCall.arraySteps]
    by_cases hzero : outstanding ricReqId sa before = 0
    · rw [if_neg fun ha => hany.mp ha hzero, if_pos hzero]
      rfl
    · rw [if_pos (hany.mpr hzero), if_neg hzero]
      rfl

theorem exists_entry_of_emit {signal : RcSignal} {ind : RcIndication}
    (h : ind ∈ data.emit signal) : ∃ sa, ∃ e ∈ data.array sa, e.ricReqId = ind.ricReqId := by
  cases signal with
  | ueId msgClass msgId =>
    obtain ⟨e, he, hind⟩ := List.mem_flatMap.mp h
    refine ⟨.rs1Param4, e, he, ?_⟩
    unfold checkUeIdCond at hind
    split at hind
    · obtain ⟨item, -, rfl⟩ := List.mem_map.mp hind
      rfl
    · exact absurd hind List.not_mem_nil
  | rrcStateChangedTo rrcState =>
    obtain ⟨e, he, hind⟩ := List.mem_flatMap.mp h
    refine ⟨.rs4Param202, e, he, ?_⟩
    unfold checkRrcState at hind
    split at hind
    · obtain ⟨item, -, hitem⟩ := List.mem_flatMap.mp hind
      obtain ⟨state, -, rfl⟩ := List.mem_map.mp hitem
      rfl
    · exact absurd hind List.not_mem_nil
  | rrcMsg nrChannel rrcMsgId =>
    obtain ⟨e, he, hind⟩ := List.mem_flatMap.mp h
    refine ⟨.rs1Param3, e, he, ?_⟩
    unfold checkRrcMsgCopy at hind
    split at hind
    · obtain ⟨item, -, rfl⟩ := List.mem_map.mp hind
      rfl
    · exact absurd hind List.not_mem_nil

theorem noTrace_iff_entriesOf : NoTrace data id ↔ ∀ sa, data.entriesOf sa id = 0 := by
  constructor
  · intro h sa
    exact entriesOf_eq_zero.mpr (h.entries sa)
  · intro h
    refine ⟨fun sa => entriesOf_eq_zero.mp (h sa), fun signal ind hind hid => ?_⟩
    obtain ⟨sa, e, he, heq⟩ := exists_entry_of_emit hind
    exact entriesOf_eq_zero.mp (h sa) e he (heq.trans hid)

end Entries

/-! ### Runs -/

section Runs

variable {calls : List RcCall} {sa : RsArray} {id : ℕ}

theorem rcRun_append (calls : List RcCall) (c : RcCall) :
    rcRun (calls ++ [c]) = (rcRun calls).call c := by
  simp [rcRun]

theorem outstanding_append (calls : List RcCall) (c : RcCall) :
    outstanding id sa (calls ++ [c]) = tally id sa (outstanding id sa calls) c := by
  simp [outstanding]

/-- A call about the entries of an id goes along with the requests, except that a removal takes one
entry only. -/
theorem entriesOf_call {data : RcSubsData} (c : RcCall)
    (h : c = .free id → data.entriesOf sa id ≤ 1) :
    (data.call c).entriesOf sa id = tally id sa (data.entriesOf sa id) c := by
  cases c with
  | write wr => exact entriesOf_write data wr sa id
  | free ricReqId =>
    rw [entriesOf_free, tally]
    split_ifs with hid
    · have hle := h (hid ▸ rfl)
      omega
    · rfl

/-- Along a run in which no array is requested twice for an id before a removal of the id, the
arrays hold what is outstanding. -/
theorem entriesOf_eq_outstanding
    (h : ∀ pre, pre ++ [.free id] <+: calls → outstanding id sa pre ≤ 1) :
    (rcRun calls).entriesOf sa id = outstanding id sa calls := by
  induction calls using List.reverseRecOn with
  | nil => cases sa <;> rfl
  | append_singleton calls c ih =>
    have hbefore := ih fun pre hpre => h pre (hpre.trans (List.prefix_append _ _))
    rw [rcRun_append, outstanding_append, entriesOf_call, hbefore]
    rintro rfl
    rw [hbefore]
    exact h calls (List.prefix_refl _)

/-- Nothing is outstanding for an id after its removal. -/
theorem Removed.outstanding_eq_zero (h : Removed calls id) (sa : RsArray) :
    outstanding id sa calls = 0 := by
  obtain ⟨before, after, rfl, hafter⟩ := h
  unfold outstanding
  rw [List.foldl_append, List.foldl_cons]
  have hzero : tally id sa (before.foldl (tally id sa) 0) (.free id) = 0 := if_pos rfl
  rw [hzero]
  induction after with
  | nil => rfl
  | cons c after ih =>
    have hc : tally id sa 0 c = 0 := by
      cases c with
      | write wr => exact if_neg (hafter wr List.mem_cons_self)
      | free ricReqId => exact ite_self 0
    rw [List.foldl_cons, hc]
    exact ih fun wr hwr => hafter wr (List.mem_cons_of_mem _ hwr)

theorem removed_append_free (calls : List RcCall) (id : ℕ) :
    Removed (calls ++ [.free id]) id :=
  ⟨calls, [], rfl, fun _ hwr => absurd hwr List.not_mem_nil⟩

/-- When every removal of an id leaves no trace, the arrays hold what is outstanding all along. -/
theorem entriesOf_eq_outstanding_of_noTrace
    (h : ∀ pre, pre <+: calls → Removed pre id → NoTrace (rcRun pre) id) :
    (rcRun calls).entriesOf sa id = outstanding id sa calls := by
  induction calls using List.reverseRecOn with
  | nil => cases sa <;> rfl
  | append_singleton calls c ih =>
    have hbefore := ih fun pre hpre => h pre (hpre.trans (List.prefix_append _ _))
    rw [rcRun_append, outstanding_append, entriesOf_call, hbefore]
    rintro rfl
    have hnone := noTrace_iff_entriesOf.mp
      (h _ (List.prefix_refl _) (removed_append_free calls id)) sa
    rw [rcRun_append, entriesOf_free, if_pos rfl] at hnone
    omega

theorem arraySteps_append (calls : List RcCall) (c : RcCall) :
    arraySteps sa (calls ++ [c]) = arraySteps sa calls ++ c.arraySteps sa calls := by
  have hfst : ∀ calls : List RcCall, (calls.foldl (fun (s : List RcCall × List ArrayStep) c =>
      (s.1 ++ [c], s.2 ++ c.arraySteps sa s.1)) ([], [])).1 = calls := by
    intro calls
    induction calls using List.reverseRecOn with
    | nil => rfl
    | append_singleton calls c ih => rw [List.foldl_append, List.foldl_cons, List.foldl_nil, ih]
  rw [arraySteps, List.foldl_append, List.foldl_cons, List.foldl_nil, hfst]
  rfl

/-- As long as the arrays hold what is outstanding, so do their blocks. -/
theorem block_rcRun (h : ∀ pre id, pre <+: calls → (rcRun pre).entriesOf sa id =
    outstanding id sa pre) :
    (rcRun calls).block sa = extentAfter ranParamDataSize (arraySteps sa calls) := by
  induction calls using List.reverseRecOn with
  | nil => rfl
  | append_singleton calls c ih =>
    have hbefore := ih fun pre id hpre => h pre id (hpre.trans (List.prefix_append _ _))
    rw [rcRun_append, block_call c fun id => h calls id (List.prefix_append _ _), hbefore,
      arraySteps_append, extentAfter, extentAfter, List.foldl_append]

theorem arraySteps_prefix (sa : RsArray) {pre : List RcCall} (h : pre <+: calls) :
    arraySteps sa pre <+: arraySteps sa calls := by
  obtain ⟨rest, rfl⟩ := h
  induction rest using List.reverseRecOn with
  | nil => rw [List.append_nil]
  | append_singleton rest c ih =>
    rw [← List.append_assoc, arraySteps_append]
    exact ih.trans (List.prefix_append _ _)

theorem intact_rcRun_iff (h : ∀ pre id, pre <+: calls → (rcRun pre).entriesOf sa id =
    outstanding id sa pre) :
    ((rcRun calls).block sa).intact = true ↔
      KeepsBlock ranParamDataSize (sizes (arraySteps sa calls)) := by
  rw [block_rcRun h]
  exact intact_extentAfter_iff (largeElements_of_le (by decide)) _

end Runs

/-- All along a run, no array leaves its block, and a subscription that was removed is in no array
and no signal sends an indication for it, exactly when at every removal each array was requested at
most once for the id since its last removal, and the numbers of entries of each array are such that
it keeps to its block. -/
theorem noTrace_iff (calls : List RcCall) :
    (∀ pre, pre <+: calls →
        (rcRun pre).Intact ∧ ∀ id, Removed pre id → NoTrace (rcRun pre) id) ↔
      (∀ pre id, pre ++ [.free id] <+: calls → ∀ sa, outstanding id sa pre ≤ 1) ∧
        ∀ sa, KeepsBlock ranParamDataSize (sizes (arraySteps sa calls)) := by
  constructor
  · intro h
    have hentries : ∀ sa pre id, pre <+: calls →
        (rcRun pre).entriesOf sa id = outstanding id sa pre := fun sa pre id hpre =>
      entriesOf_eq_outstanding_of_noTrace fun before hbefore =>
        (h before (hbefore.trans hpre)).2 id
    refine ⟨?_, fun sa => (intact_rcRun_iff (hentries sa)).mp ((h _ (List.prefix_refl _)).1 sa)⟩
    intro pre id hpre sa
    have hnone := noTrace_iff_entriesOf.mp
      ((h _ hpre).2 id (removed_append_free pre id)) sa
    rw [rcRun_append, entriesOf_free, if_pos rfl,
      hentries sa pre id ((List.prefix_append _ _).trans hpre)] at hnone
    omega
  · rintro ⟨h, hblock⟩ pre hpre
    have hentries : ∀ sa before id, before <+: calls →
        (rcRun before).entriesOf sa id = outstanding id sa before := fun sa before id hbefore =>
      entriesOf_eq_outstanding fun pre' hpre' => h pre' id (hpre'.trans hbefore) sa
    constructor
    · intro sa
      rw [block_rcRun fun before id hbefore => hentries sa before id (hbefore.trans hpre)]
      obtain ⟨rest, hrest⟩ := arraySteps_prefix sa hpre
      refine @intact_of_append _ _ rest ?_
      rw [hrest, ← block_rcRun (hentries sa)]
      exact (intact_rcRun_iff (hentries sa)).mpr (hblock sa)
    · intro id hremoved
      refine noTrace_iff_entriesOf.mpr fun sa => ?_
      rw [hentries sa pre id hpre]
      exact hremoved.outstanding_eq_zero sa

/-- A subscription to the UE ID that lists the parameter twice. -/
def doubledUeId : WrRcSubData where
  ricReqId := 7
  et := .frmt1 [⟨1, .nrRrc 7 2⟩]
  ad := ⟨1, 1, [rs1UeId, rs1UeId]⟩

/-- The subscription is removed, and the signal of the UE ID still sends an indication for it. -/
theorem not_noTrace_doubledUeId :
    Removed [.write doubledUeId, .free 7] 7 ∧
      ¬ NoTrace (rcRun [.write doubledUeId, .free 7]) 7 ∧
      (rcRun [.write doubledUeId, .free 7]).emit (.ueId 7 2) = [⟨7, 1⟩] := by
  have hemit : (rcRun [.write doubledUeId, .free 7]).emit (.ueId 7 2) = [⟨7, 1⟩] := by decide
  refine ⟨removed_append_free [.write doubledUeId] 7, fun h => ?_, hemit⟩
  have hind : (⟨7, 1⟩ : RcIndication) ∈
      (rcRun [.write doubledUeId, .free 7]).emit (.ueId 7 2) := by
    rw [hemit]
    exact List.mem_cons_self
  exact h.signals (.ueId 7 2) ⟨7, 1⟩ hind rfl

end LlmHric.E2smRc
