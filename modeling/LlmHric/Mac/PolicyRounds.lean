import LlmHric.Library.Sweep
import LlmHric.Mac.SliceCap

/-! Every pass of a resource-block policy is a sweep over the candidates: a round passes over its
candidate, leaves the loop, or offers a free block to a `COMMIT_ALLOC` block. This file gives the
rounds one by one, with a record of the validations that were attempted, and shows that the policies
are made of them. -/

namespace LlmHric.Mac

open Sweep

/-- A CCE/PUCCH validation: the candidate with its allocation, and the outcome. -/
structure Attempt where
  cand : DlCandidate
  outcome : Option VrbMap

/-- What a round of a pass starts from. -/
structure PassState where
  slot : SlotState
  /-- The variable `used_budget` of `alloc_newtx_pf`. -/
  used : ℕ
  /-- The validations made so far in the policy call. -/
  attempts : List Attempt

/-- The resource blocks from `rbStart` on, relative to the bandwidth part, are free for the
candidate and inside its bandwidth part. -/
structure DlCandidate.Fits (vrbMap : ℕ → VrbMap) (c : DlCandidate) (rbStart rbSize : ℕ) : Prop where
  inside : rbStart + rbSize ≤ c.bwpSize
  free : FreeRun (fun rb => (vrbMap c.allocBeamIdx).isFree c.allocSlbitmap (rb + c.bwpStart))
    rbStart rbSize

section Visits

variable (env : SlotEnv) (params : DlSchedParams)

/-- The validation that a `COMMIT_ALLOC` block makes. -/
def PassState.attempt (s : PassState) (c : DlCandidate) (rbStart rbSize : ℕ) : Attempt where
  cand := c.allocate rbStart rbSize c.schedPdsch.mcs
  outcome :=
    env.nrDlValidateCcePucch s.slot.validations (c.allocate rbStart rbSize c.schedPdsch.mcs)

/-- A round that reaches its `COMMIT_ALLOC` block, up to the end of the block. -/
def commitVisit (s : PassState) (c : DlCandidate) (rbStart rbSize : ℕ) :
    Visit PassState DlCandidate :=
  let commit := commitAllocOrStop env params s.slot c rbStart rbSize c.schedPdsch.mcs
  { state :=
      { s with slot := commit.state, attempts := s.attempts ++ [s.attempt env c rbStart rbSize] }
    item := commit.cand
    stop := commit.flow == .full }

/-- One round of `alloc_retx_and_no_data_pf`. -/
def exactVisit (wanted : DlCandidate → Bool) (neededRbs : DlCandidate → ℕ) (s : PassState)
    (c : DlCandidate) : Visit PassState DlCandidate :=
  if c.scheduled || !wanted c then .pass s c
  else
    match getRbAlloc (neededRbs c) c.bwpSize c.bwpStart c.bwpSize (s.slot.vrbMap c.allocBeamIdx)
        c.allocSlbitmap with
    | none => .pass s c
    | some block => commitVisit env params s c block.1 (neededRbs c)

/-- The statements of `alloc_newtx_pf` behind its `COMMIT_ALLOC` block. -/
def PassState.charge (policy : Option ℕ) (rbSize : ℕ) (s : PassState) : PassState :=
  { s with
    slot := { s.slot with mac := addSlicePolicyPrbStats params s.slot.mac policy rbSize }
    used := s.used + rbSize }

/-- One round of `alloc_newtx_pf`. -/
def newtxVisit (policy : Option ℕ) (rbBudget : ℕ) (s : PassState) (c : DlCandidate) :
    Visit PassState DlCandidate :=
  if !newtxServes s.slot.mac policy c then .pass s c
  else
    let remaining := if rbBudget > 0 then rbBudget - s.used else 0
    if rbBudget > 0 ∧ remaining < minRbSize then { state := s, item := c, stop := true }
    else
      let block := getLimitedFreeBlock s.slot.vrbMap c remaining
      if block.1 < minRbSize then .pass s c
      else
        let rbSize := newtxRbSize env c block.1
        let v := commitVisit env params s c block.2 rbSize
        if v.stop then v else { v with state := v.state.charge params policy rbSize }

/-! ### The passes as sweeps -/

variable {env params} in
theorem commitVisit_stop {s : PassState} {c : DlCandidate} {rbStart rbSize : ℕ} :
    (commitVisit env params s c rbStart rbSize).stop = true ↔
      (commitAllocOrStop env params s.slot c rbStart rbSize c.schedPdsch.mcs).flow = .full :=
  beq_iff_eq

/-- A loop of `alloc_retx_and_no_data_pf` is a sweep of its rounds. -/
theorem allocExactPf_eq_run (wanted : DlCandidate → Bool) (neededRbs : DlCandidate → ℕ)
    (s : PassState) (order : List DlCandidate) :
    allocExactPf env params wanted neededRbs s.slot order =
      { state := (run (exactVisit env params wanted neededRbs) s order).state.slot
        order := (run (exactVisit env params wanted neededRbs) s order).items
        full := (run (exactVisit env params wanted neededRbs) s order).stopped
        value :=
          (run (exactVisit env params wanted neededRbs) s order).state.slot.nScheduled } := by
  induction order generalizing s with
  | nil => rfl
  | cons c order ih =>
    rw [allocExactPf]
    by_cases hskip : (c.scheduled || !wanted c) = true
    · rw [if_pos hskip, run_cons_pass (by simp only [exactVisit, if_pos hskip]), ih]
      rfl
    · rw [if_neg hskip]
      split
      next hnone =>
        rw [run_cons_pass (by simp only [exactVisit, if_neg hskip, hnone]), ih]
        rfl
      next rbStart rbSize hsome =>
        have hvisit : exactVisit env params wanted neededRbs s c =
            commitVisit env params s c rbStart (neededRbs c) := by
          simp only [exactVisit, if_neg hskip, hsome]
        dsimp only
        split_ifs with hfull
        · have hstop := commitVisit_stop.mpr hfull
          rw [run_cons_of_stop (by rw [hvisit]; exact hstop), hvisit]
          rfl
        · have hstop : ¬ (commitVisit env params s c rbStart (neededRbs c)).stop = true :=
            fun h => hfull (commitVisit_stop.mp h)
          rw [Bool.not_eq_true] at hstop
          rw [run_cons_of_not_stop (by rw [hvisit]; exact hstop), hvisit]
          exact congrArg (Pass.after _)
            (ih (commitVisit env params s c rbStart (neededRbs c)).state)

/-- The loop of `alloc_newtx_pf` is a sweep of its rounds. -/
theorem allocNewtxPf_eq_run (policy : Option ℕ) (rbBudget : ℕ) (s : PassState)
    (order : List DlCandidate) :
    (allocNewtxPf env params policy rbBudget s.used s.slot order).state =
        (run (newtxVisit env params policy rbBudget) s order).state.slot ∧
      (allocNewtxPf env params policy rbBudget s.used s.slot order).order =
        (run (newtxVisit env params policy rbBudget) s order).items := by
  induction order generalizing s with
  | nil => exact ⟨rfl, rfl⟩
  | cons c order ih =>
    rw [allocNewtxPf]
    by_cases hskip : (!newtxServes s.slot.mac policy c) = true
    · rw [if_pos hskip, run_cons_pass (by simp only [newtxVisit, if_pos hskip])]
      exact ⟨(ih s).1, congrArg (c :: ·) (ih s).2⟩
    · rw [if_neg hskip]
      dsimp only
      generalize hremaining : (if rbBudget > 0 then rbBudget - s.used else 0) = remaining
      by_cases hbreak : rbBudget > 0 ∧ remaining < minRbSize
      · have hvisit : newtxVisit env params policy rbBudget s c = ⟨s, c, true⟩ := by
          simp only [newtxVisit, if_neg hskip, hremaining, if_pos hbreak]
        rw [if_pos hbreak, run_cons_of_stop (by rw [hvisit]), hvisit]
        exact ⟨rfl, rfl⟩
      · rw [if_neg hbreak]
        by_cases hsmall : (getLimitedFreeBlock s.slot.vrbMap c remaining).1 < minRbSize
        · have hvisit : newtxVisit env params policy rbBudget s c = .pass s c := by
            simp only [newtxVisit, if_neg hskip, hremaining, if_neg hbreak, if_pos hsmall]
          rw [if_pos hsmall, run_cons_pass hvisit]
          exact ⟨(ih s).1, congrArg (c :: ·) (ih s).2⟩
        · rw [if_neg hsmall]
          generalize hblock : getLimitedFreeBlock s.slot.vrbMap c remaining = block at hsmall
          generalize hsize :
            (nrFindNbRb (env.tbsBytes c) c.bytesToSend minRbSize block.1).2.2 = rbSize
          have hvisit : newtxVisit env params policy rbBudget s c =
              if (commitVisit env params s c block.2 rbSize).stop then
                commitVisit env params s c block.2 rbSize
              else
                { commitVisit env params s c block.2 rbSize with
                  state := (commitVisit env params s c block.2 rbSize).state.charge params policy
                    rbSize } := by
            simp only [newtxVisit, if_neg hskip, hremaining, if_neg hbreak, hblock, if_neg hsmall,
              newtxRbSize, hsize]
          split_ifs with hfull
          · have hstop := commitVisit_stop.mpr hfull
            rw [if_pos hstop] at hvisit
            rw [run_cons_of_stop (by rw [hvisit]; exact hstop), hvisit]
            exact ⟨rfl, rfl⟩
          · have hstop := mt commitVisit_stop.mp hfull
            rw [if_neg hstop] at hvisit
            rw [Bool.not_eq_true] at hstop
            rw [run_cons_of_not_stop (by rw [hvisit]; exact hstop), hvisit]
            obtain ⟨hstate, horder⟩ :=
              ih ((commitVisit env params s c block.2 rbSize).state.charge params policy rbSize)
            exact ⟨hstate, congrArg (_ :: ·) horder⟩

/-! ### The passes of a call -/

/-- `alloc_retx_and_no_data_pf`. -/
def earlyRun (s : PassState) (order : List DlCandidate) : Result PassState DlCandidate :=
  let retx := run (exactVisit env params (fun c => c.isRetx) fun c => c.retxRbSize) s order
  if retx.stopped then retx
  else
    run (exactVisit env params (fun c => !c.isRetx && c.pendingBytes == 0) fun _ => minRbSize)
      retx.state retx.items

/-- The entry has a pass of its own: it is active and has a budget. -/
def SliceState.HasPass (mac : SliceState) (i : ℕ) : Prop :=
  (mac.dlSlicePolicy.entry i).active = true ∧
    0 < totalBudget params (mac.dlSlicePolicy.entry i).dedicatedPrbRatio

instance (mac : SliceState) (i : ℕ) : Decidable (mac.HasPass params i) := by
  unfold SliceState.HasPass
  infer_instance

theorem SameTable.hasPass_iff {mac mac' : SliceState} (h : SameTable mac mac') (i : ℕ) :
    mac'.HasPass params i ↔ mac.HasPass params i := by
  rw [SliceState.HasPass, SliceState.HasPass, h.policy]

/-- The call of `alloc_newtx_pf` for the entry `i`. -/
def policyRun (i : ℕ) (s : PassState) (order : List DlCandidate) : Result PassState DlCandidate :=
  run (newtxVisit env params (some i)
      (totalBudget params (s.slot.mac.dlSlicePolicy.entry i).dedicatedPrbRatio))
    { s with used := 0 } order

/-- The passes of the first `n` entries of the table. -/
def slicesRun : ℕ → PassState → List DlCandidate → PassState × List DlCandidate
  | 0, s, order => (s, order)
  | n + 1, s, order =>
    let before := slicesRun n s order
    if before.1.slot.mac.HasPass params n then
      ((policyRun env params n before.1 before.2).state,
        (policyRun env params n before.1 before.2).items)
    else before

/-- The call of `alloc_newtx_pf` without a policy. -/
def lastRun (s : PassState) (order : List DlCandidate) : Result PassState DlCandidate :=
  run (newtxVisit env params none 0) { s with used := 0 } order

/-- The passes of a policy call over the candidates in PF order, with the first `entries` entries
of the table. -/
def callRun (entries : ℕ) (s : PassState) (order : List DlCandidate) :
    Result PassState DlCandidate :=
  let early := earlyRun env params s order
  let slices := slicesRun env params entries early.state early.items
  lastRun env params slices.1 slices.2

/-- What the passes of a call start from. -/
def SlotState.enterCall (s : SlotState) : PassState := ⟨{ s with nScheduled := 0 }, 0, []⟩

/-- The number of entries that get a pass: none when the policies are switched off. -/
def SliceState.entries (mac : SliceState) : ℕ :=
  if mac.dlSlicePolicyEnabled then mac.dlSlicePolicyCount else 0

theorem allocRetxAndNoDataPf_eq_run (s : PassState) (order : List DlCandidate) :
    (allocRetxAndNoDataPf env params s.slot order).state =
        (earlyRun env params s order).state.slot ∧
      (allocRetxAndNoDataPf env params s.slot order).order =
        (earlyRun env params s order).items := by
  simp only [allocRetxAndNoDataPf, earlyRun]
  rw [allocExactPf_eq_run env params _ _ s order]
  dsimp only
  split_ifs with hstop
  · exact ⟨rfl, rfl⟩
  · rw [allocExactPf_eq_run]
    exact ⟨rfl, rfl⟩

/-- The loop over the entries, taken apart at its last round. -/
theorem allocSlices_add_one (n i : ℕ) (s : SlotState) (order : List DlCandidate) :
    allocSlices env params (n + 1) i s order =
      let before := allocSlices env params n i s order
      if before.1.mac.HasPass params (i + n) then
        let pass := allocNewtxPf env params (some (i + n))
          (totalBudget params (before.1.mac.dlSlicePolicy.entry (i + n)).dedicatedPrbRatio) 0
          before.1 before.2
        (pass.state, pass.order)
      else before := by
  induction n generalizing i s order with
  | zero =>
    rcases allocSlices_succ env params 0 i s order with ⟨hskip, heq⟩ | ⟨hpass, heq⟩
    · rw [heq]
      exact (if_neg hskip).symm
    · rw [heq]
      exact (if_pos hpass).symm
  | succ n ih =>
    rcases allocSlices_succ env params (n + 1) i s order with ⟨hskip, heq⟩ | ⟨hpass, heq⟩ <;>
    rcases allocSlices_succ env params n i s order with ⟨hskip', heq'⟩ | ⟨hpass', heq'⟩
    · rw [heq, heq', ih, Nat.add_assoc, Nat.add_comm 1]
    · exact absurd hpass' hskip
    · exact absurd hpass hskip'
    · rw [heq, heq', ih, Nat.add_assoc, Nat.add_comm 1]

theorem allocSlices_eq_run (n : ℕ) (s : PassState) (order : List DlCandidate) :
    allocSlices env params n 0 s.slot order =
      ((slicesRun env params n s order).1.slot, (slicesRun env params n s order).2) := by
  induction n with
  | zero => rfl
  | succ n ih =>
    rw [allocSlices_add_one, ih]
    simp only [slicesRun, Nat.zero_add]
    split_ifs
    · obtain ⟨hstate, horder⟩ := allocNewtxPf_eq_run env params (some n)
        (totalBudget params
          ((slicesRun env params n s order).1.slot.mac.dlSlicePolicy.entry n).dedicatedPrbRatio)
        { (slicesRun env params n s order).1 with used := 0 } (slicesRun env params n s order).2
      exact Prod.ext hstate horder
    · rfl

/-- The passes of a call with `n` entries are made of the rounds. -/
theorem passes_eq_callRun (n : ℕ) (s : PassState) (order : List DlCandidate) :
    let early := allocRetxAndNoDataPf env params s.slot order
    let slices := allocSlices env params n 0 early.state early.order
    let last := allocNewtxPf env params none 0 0 slices.1 slices.2
    last.state = (callRun env params n s order).state.slot ∧
      last.order = (callRun env params n s order).items := by
  obtain ⟨hstate, horder⟩ := allocRetxAndNoDataPf_eq_run env params s order
  dsimp only
  rw [hstate, horder, allocSlices_eq_run]
  exact allocNewtxPf_eq_run env params none 0
    { (slicesRun env params n (earlyRun env params s order).state
        (earlyRun env params s order).items).1 with used := 0 } _

/-- `nr_dl_proportional_fair` is made of the rounds. -/
theorem nrDlProportionalFair_eq_callRun (s : SlotState) (cands : List DlCandidate) :
    (nrDlProportionalFair env params s cands).state =
        (callRun env params 0 s.enterCall (buildPfOrder env cands)).state.slot ∧
      (nrDlProportionalFair env params s cands).cands =
        (callRun env params 0 s.enterCall (buildPfOrder env cands)).items ++
          cands.filter fun c => c.skipped := by
  obtain ⟨hstate, horder⟩ :=
    passes_eq_callRun env params 0 s.enterCall (buildPfOrder env cands)
  exact ⟨hstate, congrArg (· ++ _) horder⟩

/-- `nr_dl_slice_prb_policy` is made of the rounds. -/
theorem nrDlSlicePrbPolicy_eq_callRun (s : SlotState) (cands : List DlCandidate) :
    (nrDlSlicePrbPolicy env params s cands).state =
        (callRun env params s.mac.entries s.enterCall (buildPfOrder env cands)).state.slot ∧
      (nrDlSlicePrbPolicy env params s cands).cands =
        (callRun env params s.mac.entries s.enterCall (buildPfOrder env cands)).items ++
          cands.filter fun c => c.skipped := by
  by_cases hon : s.mac.dlSlicePolicyEnabled = true ∧ 0 < s.mac.dlSlicePolicyCount
  · have hentries : s.mac.entries = s.mac.dlSlicePolicyCount := if_pos hon.1
    obtain ⟨hstate, horder⟩ := passes_eq_callRun env params s.mac.dlSlicePolicyCount s.enterCall
      (buildPfOrder env cands)
    rw [nrDlSlicePrbPolicy_eq env params hon.1 hon.2, hentries]
    exact ⟨hstate, congrArg (· ++ _) horder⟩
  · have hentries : s.mac.entries = 0 := by
      unfold SliceState.entries
      split_ifs with hen
      · exact Nat.eq_zero_of_not_pos fun hpos => hon ⟨hen, hpos⟩
      · rfl
    have hguard : (!s.mac.dlSlicePolicyEnabled || s.mac.dlSlicePolicyCount == 0) = true := by
      by_contra hnot
      apply hon
      simpa [Nat.pos_iff_ne_zero] using hnot
    rw [nrDlSlicePrbPolicy, if_pos hguard, hentries]
    exact nrDlProportionalFair_eq_callRun env params s cands

/-! ### What a round can do -/

/-- A round passes over its candidate or commits a block that is free for it; behind the commit it
writes to the statistics only. -/
inductive VisitStep (s : PassState) (c : DlCandidate) (v : Visit PassState DlCandidate) : Prop
  | pass : v.state = s → v.item = c → VisitStep s c v
  | commit (rbStart rbSize : ℕ) :
      c.scheduled = false → c.Fits s.slot.vrbMap rbStart rbSize →
      v.item = (commitVisit env params s c rbStart rbSize).item →
      v.state.attempts = (commitVisit env params s c rbStart rbSize).state.attempts →
      v.state.slot = { (commitVisit env params s c rbStart rbSize).state.slot with
        mac := v.state.slot.mac } →
      VisitStep s c v

variable {env params} in
/-- A commit writes the allocation of its candidate and nothing else of it. -/
theorem commitVisit_identity {s : PassState} {c : DlCandidate} {rbStart rbSize : ℕ}
    (hun : c.scheduled = false) :
    (commitVisit env params s c rbStart rbSize).item.identity = c.identity := by
  have hserved : Served (fun _ => True) c (commitVisit env params s c rbStart rbSize).item :=
    served_commit trivial hun
  exact hserved.identity_eq

variable {env params} in
theorem VisitStep.identity_eq {s : PassState} {c : DlCandidate} {v : Visit PassState DlCandidate}
    (h : VisitStep env params s c v) : v.item.identity = c.identity := by
  cases h with
  | pass _ hitem => rw [hitem]
  | commit rbStart rbSize hun _ hitem =>
    rw [hitem]
    exact commitVisit_identity hun

theorem exactVisit_step (wanted : DlCandidate → Bool) (neededRbs : DlCandidate → ℕ)
    (s : PassState) (c : DlCandidate) :
    VisitStep env params s c (exactVisit env params wanted neededRbs s c) := by
  unfold exactVisit
  split_ifs with hskip
  · exact .pass rfl rfl
  · split
    next => exact .pass rfl rfl
    next block hblock =>
      obtain ⟨hinside, hfree⟩ := getRbAlloc_free hblock
      have hun : c.scheduled = false := by
        by_contra hnot
        simp [hnot] at hskip
      exact .commit block.1 (neededRbs c) hun ⟨hinside, hfree⟩ rfl rfl rfl

/-- The block that is offered for new data is free and inside the bandwidth part. -/
theorem fits_getLimitedFreeBlock (vrbMap : ℕ → VrbMap) (c : DlCandidate) (rbBudget : ℕ) {size : ℕ}
    (hsize : size ≤ (getLimitedFreeBlock vrbMap c rbBudget).1) :
    c.Fits vrbMap (getLimitedFreeBlock vrbMap c rbBudget).2 size := by
  obtain ⟨hinside, hfree⟩ := findLargestFreeBlock_free (vrbMap c.allocBeamIdx) c.allocSlbitmap
    c.bwpStart c.bwpSize
  have hle : size ≤ (findLargestFreeBlock (vrbMap c.allocBeamIdx) c.allocSlbitmap c.bwpStart
      c.bwpSize).1 := by
    unfold getLimitedFreeBlock at hsize
    dsimp only at hsize
    split_ifs at hsize
    · exact hsize.trans (min_le_left _ _)
    · exact hsize
  exact ⟨(Nat.add_le_add_left hle _).trans hinside, hfree.mono hle⟩

/-- What a round of `alloc_newtx_pf` does: pass over its candidate, break off when the rest of the
budget is too small, or commit a size within the block on offer and, unless the slot is full,
charge it. -/
theorem newtxVisit_cases (policy : Option ℕ) (rbBudget : ℕ) (s : PassState) (c : DlCandidate) :
    newtxVisit env params policy rbBudget s c = .pass s c ∨
      (0 < rbBudget ∧ rbBudget - s.used < minRbSize ∧
        newtxVisit env params policy rbBudget s c = ⟨s, c, true⟩) ∨
      newtxServes s.slot.mac policy c = true ∧ ∃ rbStart rbSize,
        c.Fits s.slot.vrbMap rbStart rbSize ∧ minRbSize ≤ rbSize ∧
        (0 < rbBudget → rbSize ≤ rbBudget - s.used) ∧
        newtxVisit env params policy rbBudget s c =
          if (commitVisit env params s c rbStart rbSize).stop then
            commitVisit env params s c rbStart rbSize
          else
            { commitVisit env params s c rbStart rbSize with
              state := (commitVisit env params s c rbStart rbSize).state.charge params policy
                rbSize } := by
  unfold newtxVisit
  by_cases hskip : (!newtxServes s.slot.mac policy c) = true
  · exact .inl (if_pos hskip)
  · rw [if_neg hskip]
    have hserves : newtxServes s.slot.mac policy c = true := by simpa using hskip
    dsimp only
    generalize hremaining : (if rbBudget > 0 then rbBudget - s.used else 0) = remaining
    by_cases hbreak : rbBudget > 0 ∧ remaining < minRbSize
    · rw [if_pos hbreak.1] at hremaining
      exact .inr (.inl ⟨hbreak.1, by omega, if_pos hbreak⟩)
    · rw [if_neg hbreak]
      by_cases hsmall : (getLimitedFreeBlock s.slot.vrbMap c remaining).1 < minRbSize
      · exact .inl (if_pos hsmall)
      · rw [if_neg hsmall]
        obtain ⟨hmin, hmax⟩ := nrFindNbRb_mem (env.tbsBytes c) c.bytesToSend
          (Nat.le_of_not_lt hsmall)
        refine .inr (.inr ⟨hserves, _, _, fits_getLimitedFreeBlock _ c remaining hmax, hmin,
          fun hpos => hmax.trans ?_, rfl⟩)
        rw [if_pos hpos] at hremaining
        have hremaining_pos : 0 < remaining := by
          unfold minRbSize at hbreak
          omega
        exact (getLimitedFreeBlock_le s.slot.vrbMap c hremaining_pos).trans hremaining.ge

theorem newtxVisit_step (policy : Option ℕ) (rbBudget : ℕ) (s : PassState) (c : DlCandidate) :
    VisitStep env params s c (newtxVisit env params policy rbBudget s c) := by
  rcases newtxVisit_cases env params policy rbBudget s c with
    heq | ⟨-, -, heq⟩ | ⟨hserves, rbStart, rbSize, hfits, -, -, heq⟩
  · rw [heq]
    exact .pass rfl rfl
  · rw [heq]
    exact .pass rfl rfl
  · have hun : c.scheduled = false := ((newtxServes_iff policy).mp hserves).1
    rw [heq]
    split_ifs
    · exact .commit rbStart rbSize hun hfits rfl rfl rfl
    · exact .commit rbStart rbSize hun hfits rfl rfl rfl

section Invariant

variable {env params} {I : PassState → List DlCandidate → Prop}
  (hvisit : ∀ pre s c post v, VisitStep env params s c v → I s (pre ++ c :: post) →
    I v.state (pre ++ v.item :: post))

include hvisit in
theorem exactRun_invariant (wanted : DlCandidate → Bool) (neededRbs : DlCandidate → ℕ)
    {s : PassState} {order : List DlCandidate} (h : I s order) :
    I (run (exactVisit env params wanted neededRbs) s order).state
      (run (exactVisit env params wanted neededRbs) s order).items :=
  run_invariant (fun pre s c post =>
    hvisit pre s c post _ (exactVisit_step env params wanted neededRbs s c)) [] h

include hvisit in
theorem newtxRun_invariant (policy : Option ℕ) (rbBudget : ℕ) {s : PassState}
    {order : List DlCandidate} (h : I s order) :
    I (run (newtxVisit env params policy rbBudget) s order).state
      (run (newtxVisit env params policy rbBudget) s order).items :=
  run_invariant (fun pre s c post =>
    hvisit pre s c post _ (newtxVisit_step env params policy rbBudget s c)) [] h

include hvisit in
theorem earlyRun_invariant {s : PassState} {order : List DlCandidate} (h : I s order) :
    I (earlyRun env params s order).state (earlyRun env params s order).items := by
  simp only [earlyRun]
  split_ifs
  · exact exactRun_invariant hvisit _ _ h
  · exact exactRun_invariant hvisit _ _ (exactRun_invariant hvisit _ _ h)

variable (hreset : ∀ s order, I s order → I { s with used := 0 } order)

include hvisit hreset in
theorem slicesRun_invariant (n : ℕ) {s : PassState} {order : List DlCandidate} (h : I s order) :
    I (slicesRun env params n s order).1 (slicesRun env params n s order).2 := by
  induction n with
  | zero => exact h
  | succ n ih =>
    simp only [slicesRun]
    split_ifs
    · exact newtxRun_invariant hvisit _ _ (hreset _ _ ih)
    · exact ih

include hvisit hreset in
/-- What every round keeps, whatever the pass and the position of its candidate, the passes of a
call keep. -/
theorem callRun_invariant (n : ℕ) {s : PassState} {order : List DlCandidate} (h : I s order) :
    I (callRun env params n s order).state (callRun env params n s order).items :=
  newtxRun_invariant hvisit none 0
    (hreset _ _ (slicesRun_invariant hvisit hreset n (earlyRun_invariant hvisit h)))

end Invariant

end Visits

end LlmHric.Mac
