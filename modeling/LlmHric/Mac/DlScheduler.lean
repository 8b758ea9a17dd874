import LlmHric.Library.SortedRuns
import LlmHric.Mac.SlicePolicy
import LlmHric.Mac.ResourceBlocks
import Mathlib.Data.List.SplitBy

/-! In every downlink slot the MAC sorts its candidates by beam and calls the resource-block policy
once for each beam. The slice policy serves retransmissions and control elements first, then the new
data of every slice with a policy up to the slice's budget, then the new data of all other slices.

The candidates of a call are kept as a list in the order in which the policy visits them;
a pass over the list returns it with the visited candidates rewritten. What the source
decides elsewhere is collected in a `SlotEnv`: the outcome of every CCE/PUCCH validation,
the order the two sorts leave, and the transport block size. -/

namespace LlmHric.Mac

/-- The allocation fields of `NR_sched_pdsch_t` that the policies write. -/
structure SchedPdsch where
  rbStart : ℕ
  rbSize : ℕ
  mcs : ℕ
  deriving DecidableEq

/-- A scheduling candidate, with the fields the resource-block policies use. -/
structure DlCandidate where
  rnti : ℕ
  isRetx : Bool
  retxRbSize : ℕ
  pendingBytes : BitVec 32
  /-- The UE has a timing-advance command to apply, which needs two more bytes. -/
  taApply : Bool
  bwpStart : ℕ
  bwpSize : ℕ
  nssai : Nssai
  skipped : Bool
  scheduled : Bool
  schedPdsch : SchedPdsch
  allocSlbitmap : BitVec 16
  allocBeamIdx : ℕ
  deriving DecidableEq

/-- The scheduling parameters of a slot; the VRB maps are part of the state. -/
structure DlSchedParams where
  frame : ℕ
  slot : ℕ
  numBeams : ℕ
  maxNumUe : ℕ
  nRbAvail : ℕ → ℕ

/-- What a slot changes. -/
structure SlotState where
  mac : SliceState
  /-- The VRB map of every beam. -/
  vrbMap : ℕ → VrbMap
  /-- CCE/PUCCH validations made so far. -/
  validations : ℕ
  /-- The count `n_scheduled` of the running policy call. -/
  nScheduled : ℕ

/-- What is decided outside the policies. -/
structure SlotEnv where
  /-- `nr_compute_tbs` with the candidate's modulation, code rate, layers and symbols: the
  transport block size in bits for a number of resource blocks. -/
  nrComputeTbs : DlCandidate → ℕ → BitVec 32
  /-- The outcome of the `k`-th CCE/PUCCH validation. A success comes with the symbols that
  `fill_pdcch_vrb_map` then takes in the VRB map of the beam. -/
  nrDlValidateCcePucch : ℕ → DlCandidate → Option VrbMap
  /-- The order in which `qsort` leaves candidates compared by their PF weight. -/
  pfSort : List DlCandidate → List DlCandidate
  pfSort_perm (cands : List DlCandidate) : (pfSort cands).Perm cands
  /-- The order in which `qsort` leaves candidates compared by their beam. -/
  beamSort : List DlCandidate → List DlCandidate
  beamSort_perm (cands : List DlCandidate) : (beamSort cands).Perm cands
  beamSort_pairwise (cands : List DlCandidate) :
    (beamSort cands).Pairwise fun c c' => c.allocBeamIdx ≤ c'.allocBeamIdx

/-- The smallest allocation of a new transmission. -/
def minRbSize : ℕ := 5

namespace DlCandidate

def newData (c : DlCandidate) : Bool := !c.isRetx && c.pendingBytes != 0

/-- Bytes to allocate for: the buffer with the overhead of the headers. -/
def bytesToSend (c : DlCandidate) : ℕ :=
  (c.pendingBytes + 3 * 4 + if c.taApply then 2 else 0 : BitVec 32).toNat

/-- Write an allocation. -/
def allocate (c : DlCandidate) (rbStart rbSize mcs : ℕ) : DlCandidate :=
  { c with schedPdsch := ⟨rbStart, rbSize, mcs⟩ }

end DlCandidate

/-- Transport block size in bytes. -/
def SlotEnv.tbsBytes (env : SlotEnv) (c : DlCandidate) (nbRb : ℕ) : ℕ :=
  (env.nrComputeTbs c nbRb >>> 3).toNat

/-! ### Committing an allocation -/

/-- `commit_alloc`: validate CCE and PUCCH, then take the symbols of the PDCCH and of the
allocation in the VRB map of the candidate's beam. -/
def commitAlloc (env : SlotEnv) (s : SlotState) (c : DlCandidate) : Bool × SlotState :=
  let counted := { s with validations := s.validations + 1 }
  match env.nrDlValidateCcePucch s.validations c with
  | none => (false, counted)
  | some pdcch =>
    -- the PDCCH is marked first, then the allocation on top of it
    let withPdcch : VrbMap := fun rb => s.vrbMap c.allocBeamIdx rb ||| pdcch rb
    (true,
      { counted with
        vrbMap := Function.update s.vrbMap c.allocBeamIdx
          (withPdcch.mark c.allocSlbitmap (c.schedPdsch.rbStart + c.bwpStart)
            c.schedPdsch.rbSize) })

/-- How the `COMMIT_ALLOC` block of a policy loop is left. -/
inductive CommitFlow
  /-- The validation failed. The `continue` of the block leaves its own `do … while (0)`, so the
  statements after the block run. -/
  | failed
  /-- The candidate is scheduled. -/
  | taken
  /-- The candidate is scheduled and `max_num_ue` is reached: the function returns. -/
  | full
  deriving DecidableEq

/-- The state and the candidate after a `COMMIT_ALLOC` block. -/
structure Commit where
  flow : CommitFlow
  state : SlotState
  cand : DlCandidate

/-- The `COMMIT_ALLOC` block. -/
def commitAllocOrStop (env : SlotEnv) (params : DlSchedParams) (s : SlotState) (c : DlCandidate)
    (rbStart rbSize mcs : ℕ) : Commit :=
  let c := c.allocate rbStart rbSize mcs
  match commitAlloc env s c with
  | (false, s) => { flow := .failed, state := s, cand := c }
  | (true, s) =>
    { flow := if s.nScheduled + 1 ≥ params.maxNumUe then .full else .taken
      state := { s with nScheduled := s.nScheduled + 1 }
      cand := { c with scheduled := true } }

/-- The result of a pass over the candidates: the state, the candidates, whether the pass was
left by the `return` of a `COMMIT_ALLOC` block, and the value it returns. -/
structure Pass where
  state : SlotState
  order : List DlCandidate
  full : Bool
  value : ℕ

/-- Put a visited candidate in front of the rest of a pass. -/
def Pass.after (c : DlCandidate) (p : Pass) : Pass := { p with order := c :: p.order }

/-- One loop of `alloc_retx_and_no_data_pf`: every wanted candidate gets exactly the resource
blocks it needs, or none. -/
def allocExactPf (env : SlotEnv) (params : DlSchedParams) (wanted : DlCandidate → Bool)
    (neededRbs : DlCandidate → ℕ) : SlotState → List DlCandidate → Pass
  | s, [] => { state := s, order := [], full := false, value := s.nScheduled }
  | s, c :: order =>
    if c.scheduled || !wanted c then
      (allocExactPf env params wanted neededRbs s order).after c
    else
      match getRbAlloc (neededRbs c) c.bwpSize c.bwpStart c.bwpSize (s.vrbMap c.allocBeamIdx)
          c.allocSlbitmap with
      | none => (allocExactPf env params wanted neededRbs s order).after c
      | some (rbStart, _) =>
        let commit := commitAllocOrStop env params s c rbStart (neededRbs c) c.schedPdsch.mcs
        if commit.flow = .full then
          { state := commit.state, order := commit.cand :: order, full := true,
            value := commit.state.nScheduled }
        else (allocExactPf env params wanted neededRbs commit.state order).after commit.cand

/-- `alloc_retx_and_no_data_pf`: retransmissions, then candidates without data. -/
def allocRetxAndNoDataPf (env : SlotEnv) (params : DlSchedParams) (s : SlotState)
    (order : List DlCandidate) : Pass :=
  let retx := allocExactPf env params (fun c => c.isRetx) (fun c => c.retxRbSize) s order
  if retx.full then retx
  else
    allocExactPf env params (fun c => !c.isRetx && c.pendingBytes == 0) (fun _ => minRbSize)
      retx.state retx.order

/-- `add_slice_policy_prb_stats`, without its log lines. -/
def addSlicePolicyPrbStats (params : DlSchedParams) (mac : SliceState) (policy : Option ℕ)
    (rbSize : ℕ) : SliceState :=
  match policy with
  | none => mac
  | some i =>
    if i < mac.dlSlicePolicyCount then
      let mac := { mac with
        dlSlicePolicyPrbUsed := fun j =>
          if j.val = i then mac.dlSlicePolicyPrbUsed j + rbSize else mac.dlSlicePolicyPrbUsed j }
      if params.slot ≠ 0 ∨ params.frame = mac.dlSlicePolicyLastLogFrame ∨ params.frame % 100 ≠ 0
      then mac
      else { mac with dlSlicePolicyLastLogFrame := params.frame }
    else mac

/-- `get_limited_free_block`: size and start of the block on offer. A budget of 0 is no limit. -/
def getLimitedFreeBlock (vrbMap : ℕ → VrbMap) (c : DlCandidate) (rbBudget : ℕ) : ℕ × ℕ :=
  let block := findLargestFreeBlock (vrbMap c.allocBeamIdx) c.allocSlbitmap c.bwpStart c.bwpSize
  (if rbBudget > 0 then min block.1 rbBudget else block.1, block.2)

theorem getLimitedFreeBlock_le (vrbMap : ℕ → VrbMap) (c : DlCandidate) {b : ℕ} (h : 0 < b) :
    (getLimitedFreeBlock vrbMap c b).1 ≤ b := by
  simp only [getLimitedFreeBlock, if_pos h]
  exact min_le_right _ _

/-- The candidates `alloc_newtx_pf` serves: new data, of the policy's slice or, without a policy,
of a slice that has none. -/
def newtxServes (mac : SliceState) (policy : Option ℕ) (c : DlCandidate) : Bool :=
  !(c.scheduled || c.isRetx || c.pendingBytes == 0) &&
    match policy with
    | some i => SliceState.nssaiMatchesPolicy c.nssai (mac.dlSlicePolicy.entry i).nssai
    | none => (mac.findSlicePolicy c.nssai).isNone

/-- The loop of `alloc_newtx_pf`; `used` is the budget used so far. The policy is the index of a
table entry. -/
def allocNewtxPf (env : SlotEnv) (params : DlSchedParams) (policy : Option ℕ) (rbBudget : ℕ) :
    ℕ → SlotState → List DlCandidate → Pass
  | used, s, [] => { state := s, order := [], full := false, value := used }
  | used, s, c :: order =>
    if !newtxServes s.mac policy c then
      (allocNewtxPf env params policy rbBudget used s order).after c
    else
      let remaining := if rbBudget > 0 then rbBudget - used else 0
      if rbBudget > 0 ∧ remaining < minRbSize then
        -- `break`: the candidates behind this one are not looked at
        { state := s, order := c :: order, full := false, value := used }
      else
        let block := getLimitedFreeBlock s.vrbMap c remaining
        if block.1 < minRbSize then
          (allocNewtxPf env params policy rbBudget used s order).after c
        else
          let rbSize := (nrFindNbRb (env.tbsBytes c) c.bytesToSend minRbSize block.1).2.2
          let commit := commitAllocOrStop env params s c block.2 rbSize c.schedPdsch.mcs
          if commit.flow = .full then
            -- the `return` stands before the statistics, so this allocation is not counted there
            { state := commit.state, order := commit.cand :: order, full := true,
              value := commit.state.nScheduled }
          else
            -- reached after a failed commit as well: its size is charged to the budget
            let mac := addSlicePolicyPrbStats params commit.state.mac policy rbSize
            (allocNewtxPf env params policy rbBudget (used + rbSize)
              { commit.state with mac := mac } order).after commit.cand

/-! ### The policies -/

/-- `build_pf_order`: the candidates that were not dropped, by PF weight. -/
def buildPfOrder (env : SlotEnv) (cands : List DlCandidate) : List DlCandidate :=
  env.pfSort (cands.filter fun c => !c.skipped)

/-- The candidates of a beam after a policy call, and the value it returns. The candidates that
the order left out follow at the end. -/
structure PolicyCall where
  state : SlotState
  cands : List DlCandidate
  value : ℕ

def Pass.finish (p : Pass) (cands : List DlCandidate) : PolicyCall where
  state := p.state
  cands := p.order ++ cands.filter fun c => c.skipped
  value := p.state.nScheduled

/-- `nr_dl_proportional_fair`. -/
def nrDlProportionalFair (env : SlotEnv) (params : DlSchedParams) (s : SlotState)
    (cands : List DlCandidate) : PolicyCall :=
  let early := allocRetxAndNoDataPf env params { s with nScheduled := 0 } (buildPfOrder env cands)
  (allocNewtxPf env params none 0 0 early.state early.order).finish cands

/-- The budget loop over the beams. -/
def totalBudget (params : DlSchedParams) (dedicatedPrbRatio : ℕ) : ℕ :=
  (List.range params.numBeams).foldl
    (fun total b => total + params.nRbAvail b * dedicatedPrbRatio / 100) 0

/-- The loop of `nr_dl_slice_prb_policy` over the policies from index `i` on, with `remaining`
entries to go. -/
def allocSlices (env : SlotEnv) (params : DlSchedParams) :
    ℕ → ℕ → SlotState → List DlCandidate → SlotState × List DlCandidate
  | 0, _, s, order => (s, order)
  | remaining + 1, i, s, order =>
    let policy := s.mac.dlSlicePolicy.entry i
    if !policy.active || policy.dedicatedPrbRatio == 0 then
      allocSlices env params remaining (i + 1) s order
    else if totalBudget params policy.dedicatedPrbRatio ≤ 0 then
      allocSlices env params remaining (i + 1) s order
    else
      let pass := allocNewtxPf env params (some i)
        (totalBudget params policy.dedicatedPrbRatio) 0 s order
      allocSlices env params remaining (i + 1) pass.state pass.order

/-- `nr_dl_slice_prb_policy`. -/
def nrDlSlicePrbPolicy (env : SlotEnv) (params : DlSchedParams) (s : SlotState)
    (cands : List DlCandidate) : PolicyCall :=
  if !s.mac.dlSlicePolicyEnabled || s.mac.dlSlicePolicyCount == 0 then
    nrDlProportionalFair env params s cands
  else
    -- the values of the passes are dropped: a full slot does not end the call
    let early := allocRetxAndNoDataPf env params { s with nScheduled := 0 }
      (buildPfOrder env cands)
    let slices := allocSlices env params s.mac.dlSlicePolicyCount 0 early.state early.order
    (allocNewtxPf env params none 0 0 slices.1 slices.2).finish cands

/-- The loop of `nr_dl_schedule` over the beams: one policy call for each. -/
def allocBeams (env : SlotEnv) (params : DlSchedParams) :
    SlotState → List (List DlCandidate) → SlotState × List DlCandidate
  | s, [] => (s, [])
  | s, cands :: beams =>
    let call := nrDlSlicePrbPolicy env params s cands
    -- the next beam starts from the table and maps of this one, with a budget of its own
    let rest := allocBeams env params call.state beams
    (rest.1, call.cands ++ rest.2)

/-- The maximal runs of candidates on one beam. -/
def beamGroups (cands : List DlCandidate) : List (List DlCandidate) :=
  cands.splitBy fun c c' => c.allocBeamIdx == c'.allocBeamIdx

/-- `nr_dl_schedule` from the sort by beam to the last policy call: the state and the candidates
after the resource blocks of the slot are handed out. -/
def nrDlSchedule (env : SlotEnv) (params : DlSchedParams) (mac : SliceState)
    (vrbMap : ℕ → VrbMap) (cands : List DlCandidate) : SlotState × List DlCandidate :=
  allocBeams env params { mac := mac, vrbMap := vrbMap, validations := 0, nScheduled := 0 }
    (beamGroups (env.beamSort cands))

section Commit

variable {env : SlotEnv} {params : DlSchedParams} {s : SlotState} {c : DlCandidate}
  {rbStart rbSize mcs : ℕ}

theorem commitAllocOrStop_of_none
    (h : env.nrDlValidateCcePucch s.validations (c.allocate rbStart rbSize mcs) = none) :
    commitAllocOrStop env params s c rbStart rbSize mcs =
      { flow := .failed
        state := { s with validations := s.validations + 1 }
        cand := c.allocate rbStart rbSize mcs } := by
  simp [commitAllocOrStop, commitAlloc, h]

theorem commitAllocOrStop_of_some {pdcch : VrbMap}
    (h : env.nrDlValidateCcePucch s.validations (c.allocate rbStart rbSize mcs) = some pdcch) :
    commitAllocOrStop env params s c rbStart rbSize mcs =
      { flow := if s.nScheduled + 1 ≥ params.maxNumUe then .full else .taken
        state :=
          { mac := s.mac
            vrbMap := Function.update s.vrbMap c.allocBeamIdx
              (VrbMap.mark (fun rb => s.vrbMap c.allocBeamIdx rb ||| pdcch rb) c.allocSlbitmap
                (rbStart + c.bwpStart) rbSize)
            validations := s.validations + 1
            nScheduled := s.nScheduled + 1 }
        cand := { c.allocate rbStart rbSize mcs with scheduled := true } } := by
  simp only [commitAllocOrStop, commitAlloc, h]
  rfl

@[simp] theorem commitAllocOrStop_mac :
    (commitAllocOrStop env params s c rbStart rbSize mcs).state.mac = s.mac := by
  cases h : env.nrDlValidateCcePucch s.validations (c.allocate rbStart rbSize mcs) with
  | none => rw [commitAllocOrStop_of_none h]
  | some pdcch => rw [commitAllocOrStop_of_some h]

/-- A commit takes symbols on the candidate's beam only, and none when its validation fails. -/
theorem commitAllocOrStop_vrbMap {b : ℕ}
    (h : c.allocBeamIdx = b →
      env.nrDlValidateCcePucch s.validations (c.allocate rbStart rbSize mcs) = none) :
    (commitAllocOrStop env params s c rbStart rbSize mcs).state.vrbMap b = s.vrbMap b := by
  cases hval : env.nrDlValidateCcePucch s.validations (c.allocate rbStart rbSize mcs) with
  | none => rw [commitAllocOrStop_of_none hval]
  | some pdcch =>
    have hb : b ≠ c.allocBeamIdx := by
      intro hb
      rw [h hb.symm] at hval
      exact Option.some_ne_none pdcch hval.symm
    rw [commitAllocOrStop_of_some hval]
    exact Function.update_of_ne hb _ _

end Commit

/-! ### What a pass can change -/

/-- The slice-policy table and its switch are the same in two states. -/
structure SameTable (mac mac' : SliceState) : Prop where
  policy : mac'.dlSlicePolicy = mac.dlSlicePolicy
  count : mac'.dlSlicePolicyCount = mac.dlSlicePolicyCount
  enabled : mac'.dlSlicePolicyEnabled = mac.dlSlicePolicyEnabled

namespace SameTable

theorem refl (mac : SliceState) : SameTable mac mac := ⟨rfl, rfl, rfl⟩

theorem trans {mac mac' mac'' : SliceState} (h : SameTable mac mac') (h' : SameTable mac' mac'') :
    SameTable mac mac'' :=
  ⟨h'.policy.trans h.policy, h'.count.trans h.count, h'.enabled.trans h.enabled⟩

theorem newtxServes_eq {mac mac' : SliceState} (h : SameTable mac mac') (policy : Option ℕ)
    (c : DlCandidate) : newtxServes mac' policy c = newtxServes mac policy c := by
  unfold newtxServes SliceState.findSlicePolicy
  rw [h.policy, h.count, h.enabled]

end SameTable

theorem sameTable_addSlicePolicyPrbStats (params : DlSchedParams) (mac : SliceState)
    (policy : Option ℕ) (rbSize : ℕ) :
    SameTable mac (addSlicePolicyPrbStats params mac policy rbSize) := by
  unfold addSlicePolicyPrbStats
  cases policy with
  | none => exact .refl mac
  | some i =>
    dsimp only
    split_ifs
    · exact ⟨rfl, rfl, rfl⟩
    · exact ⟨rfl, rfl, rfl⟩
    · exact .refl mac

/-- The part of a candidate that no policy writes. -/
def DlCandidate.identity (c : DlCandidate) : DlCandidate :=
  { c with schedPdsch := ⟨0, 0, 0⟩, scheduled := false }

/-- A candidate before and after a pass: untouched, or served and at most given an allocation. -/
def Served (serves : DlCandidate → Prop) (c c' : DlCandidate) : Prop :=
  c' = c ∨ serves c ∧ c.scheduled = false ∧ c'.identity = c.identity

namespace Served

variable {serves serves' : DlCandidate → Prop} {c c' c'' : DlCandidate}

theorem identity_eq (h : Served serves c c') : c'.identity = c.identity := by
  rcases h with rfl | ⟨-, -, heq⟩
  · rfl
  · exact heq

theorem mono (h : Served serves c c') (himp : serves c → serves' c) : Served serves' c c' := by
  rcases h with rfl | ⟨hserves, hrest⟩
  · exact .inl rfl
  · exact .inr ⟨himp hserves, hrest⟩

theorem trans (h : Served serves c c') (h' : Served serves c' c'') : Served serves c c'' := by
  have hid : c''.identity = c.identity := h'.identity_eq.trans h.identity_eq
  rcases h with rfl | ⟨hserves, hun, -⟩
  · exact h'
  · exact .inr ⟨hserves, hun, hid⟩

end Served

theorem served_commit {serves : DlCandidate → Prop} {env : SlotEnv} {params : DlSchedParams}
    {s : SlotState} {c : DlCandidate} {rbStart rbSize mcs : ℕ} (hserves : serves c)
    (hun : c.scheduled = false) :
    Served serves c (commitAllocOrStop env params s c rbStart rbSize mcs).cand := by
  refine .inr ⟨hserves, hun, ?_⟩
  cases h : env.nrDlValidateCcePucch s.validations (c.allocate rbStart rbSize mcs) with
  | none =>
    rw [commitAllocOrStop_of_none h]
    rfl
  | some pdcch =>
    rw [commitAllocOrStop_of_some h]
    rfl

/-- A pass keeps the table and touches only candidates it serves. -/
structure Advances (serves : DlCandidate → Prop) (s : SlotState) (order : List DlCandidate)
    (s' : SlotState) (order' : List DlCandidate) : Prop where
  table : SameTable s.mac s'.mac
  cands : List.Forall₂ (Served serves) order order'

namespace Advances

variable {serves serves' : DlCandidate → Prop} {s s' s'' : SlotState}
  {order order' order'' : List DlCandidate}

theorem refl (serves : DlCandidate → Prop) (s : SlotState) (order : List DlCandidate) :
    Advances serves s order s order :=
  ⟨.refl s.mac, List.forall₂_same.mpr fun _ _ => .inl rfl⟩

theorem mono (h : Advances serves s order s' order') (himp : ∀ c, serves c → serves' c) :
    Advances serves' s order s' order' :=
  ⟨h.table, h.cands.imp fun _ _ hserved => hserved.mono (himp _)⟩

theorem weaken (h : Advances serves s order s' order') :
    Advances (fun _ => True) s order s' order' :=
  h.mono fun _ _ => trivial

theorem trans (h : Advances serves s order s' order') (h' : Advances serves s' order' s'' order'') :
    Advances serves s order s'' order'' := by
  refine ⟨h.table.trans h'.table, ?_⟩
  have hcands := h.cands
  have hcands' := h'.cands
  clear h h'
  -- both lists are peeled together; the middle list ties the two relations
  induction hcands generalizing order'' with
  | nil =>
    cases hcands'
    exact .nil
  | cons hhead _ ih =>
    cases hcands' with
    | cons hhead' htail' => exact .cons (hhead.trans hhead') (ih htail')

/-- A candidate that the pass does not serve comes out as it went in. -/
theorem mem_of_not_serves (h : Advances serves s order s' order') {c : DlCandidate}
    (hmem : c ∈ order) (hnot : ¬ serves c) : c ∈ order' := by
  have hcands := h.cands
  clear h
  induction hcands with
  | nil => exact absurd hmem List.not_mem_nil
  | cons hhead _ ih =>
    rcases List.mem_cons.mp hmem with rfl | htail
    · rcases hhead with rfl | ⟨hserves, -⟩
      · exact List.mem_cons_self
      · exact absurd hserves hnot
    · exact List.mem_cons_of_mem _ (ih htail)

/-- The candidates that come out of a pass are the ones that went in, up to their allocation. -/
theorem exists_of_mem (h : Advances serves s order s' order') {c' : DlCandidate}
    (hmem : c' ∈ order') : ∃ c ∈ order, c'.identity = c.identity := by
  have hcands := h.cands
  clear h
  induction hcands with
  | nil => exact absurd hmem List.not_mem_nil
  | cons hhead _ ih =>
    rcases List.mem_cons.mp hmem with rfl | htail
    · exact ⟨_, List.mem_cons_self, hhead.identity_eq⟩
    · obtain ⟨c, hc, heq⟩ := ih htail
      exact ⟨c, List.mem_cons_of_mem _ hc, heq⟩

end Advances

/-- No validation of the candidate succeeds. -/
def SlotEnv.Silences (env : SlotEnv) (c : DlCandidate) : Prop :=
  ∀ c' : DlCandidate, c'.identity = c.identity → ∀ k, env.nrDlValidateCcePucch k c' = none

theorem SlotEnv.Silences.allocate {env : SlotEnv} {c : DlCandidate} (h : env.Silences c)
    (k rbStart rbSize mcs : ℕ) :
    env.nrDlValidateCcePucch k (c.allocate rbStart rbSize mcs) = none :=
  h (c.allocate rbStart rbSize mcs) rfl k

/-- On beam `b`, the candidates of a kind never pass their validation. -/
def Quiet (env : SlotEnv) (kind : DlCandidate → Prop) (b : ℕ) (order : List DlCandidate) : Prop :=
  ∀ c ∈ order, c.allocBeamIdx = b → kind c.identity → env.Silences c

theorem Quiet.advance {env : SlotEnv} {kind serves : DlCandidate → Prop} {b : ℕ}
    {s s' : SlotState} {order order' : List DlCandidate} (h : Quiet env kind b order)
    (hadv : Advances serves s order s' order') : Quiet env kind b order' := by
  intro c' hmem hb hkind x hx
  -- `c'` is some candidate `c` of the list before, up to its allocation
  obtain ⟨c, hc, hid⟩ := hadv.exists_of_mem hmem
  have hbeam : c.allocBeamIdx = b := (congrArg DlCandidate.allocBeamIdx hid).symm.trans hb
  rw [hid] at hkind hx
  exact h c hc hbeam hkind x hx

/-! ### The passes -/

section Passes

variable (env : SlotEnv) (params : DlSchedParams)

@[simp] theorem Pass.after_state (c : DlCandidate) (p : Pass) : (p.after c).state = p.state := rfl

@[simp] theorem Pass.after_order (c : DlCandidate) (p : Pass) :
    (p.after c).order = c :: p.order := rfl

theorem Advances.after {serves : DlCandidate → Prop} {s s₁ : SlotState}
    {order : List DlCandidate} {p : Pass} {c c' : DlCandidate} (hhead : Served serves c c')
    (htable : SameTable s.mac s₁.mac) (hrest : Advances serves s₁ order p.state p.order) :
    Advances serves s (c :: order) (p.after c').state (p.after c').order :=
  ⟨htable.trans hrest.table, .cons hhead hrest.cands⟩

section Exact

variable (wanted : DlCandidate → Bool) (neededRbs : DlCandidate → ℕ)

/-- What a loop of `alloc_retx_and_no_data_pf` does with one candidate: pass over it, or commit
its resource blocks and stop or go on. -/
theorem allocExactPf_cons (s : SlotState) (c : DlCandidate) (order : List DlCandidate) :
    allocExactPf env params wanted neededRbs s (c :: order) =
        (allocExactPf env params wanted neededRbs s order).after c ∨
      c.scheduled = false ∧ wanted c = true ∧ ∃ rbStart,
        let commit := commitAllocOrStop env params s c rbStart (neededRbs c) c.schedPdsch.mcs
        allocExactPf env params wanted neededRbs s (c :: order) =
            ⟨commit.state, commit.cand :: order, true, commit.state.nScheduled⟩ ∨
          allocExactPf env params wanted neededRbs s (c :: order) =
            (allocExactPf env params wanted neededRbs commit.state order).after commit.cand := by
  rw [allocExactPf]
  by_cases hskip : (c.scheduled || !wanted c) = true
  · rw [if_pos hskip]
    exact .inl rfl
  · rw [if_neg hskip]
    have hserves : c.scheduled = false ∧ wanted c = true := by simpa using hskip
    split
    · exact .inl rfl
    next rbStart rbSize _ =>
      refine .inr ⟨hserves.1, hserves.2, rbStart, ?_⟩
      dsimp only
      split_ifs
      · exact .inl rfl
      · exact .inr rfl

theorem allocExactPf_advances (s : SlotState) (order : List DlCandidate) :
    Advances (fun c => wanted c = true) s order
      (allocExactPf env params wanted neededRbs s order).state
      (allocExactPf env params wanted neededRbs s order).order := by
  induction order generalizing s with
  | nil => exact .refl _ s []
  | cons c order ih =>
    rcases allocExactPf_cons env params wanted neededRbs s c order with
      heq | ⟨hun, hwanted, rbStart, heq | heq⟩
    · rw [heq]
      exact .after (.inl rfl) (.refl s.mac) (ih s)
    · rw [heq]
      refine ⟨?_, .cons (served_commit hwanted hun) (Advances.refl _ s order).cands⟩
      rw [commitAllocOrStop_mac]
      exact .refl s.mac
    · rw [heq]
      refine .after (served_commit hwanted hun) ?_ (ih _)
      rw [commitAllocOrStop_mac]
      exact .refl s.mac

/-- The VRB map of a beam is untouched when every wanted candidate on it fails its validation. -/
theorem allocExactPf_vrbMap {kind : DlCandidate → Prop} {b : ℕ} (s : SlotState)
    (order : List DlCandidate) (hkind : ∀ c, wanted c = true → kind c.identity)
    (h : Quiet env kind b order) :
    (allocExactPf env params wanted neededRbs s order).state.vrbMap b = s.vrbMap b := by
  induction order generalizing s with
  | nil => rfl
  | cons c order ih =>
    have hrest := fun s' => ih s' fun x hx => h x (List.mem_cons_of_mem c hx)
    rcases allocExactPf_cons env params wanted neededRbs s c order with
      heq | ⟨-, hwanted, rbStart, heq | heq⟩
    · rw [heq]
      exact hrest s
    · rw [heq]
      exact commitAllocOrStop_vrbMap fun hb =>
        (h c List.mem_cons_self hb (hkind c hwanted)).allocate _ _ _ _
    · rw [heq, Pass.after_state, hrest]
      exact commitAllocOrStop_vrbMap fun hb =>
        (h c List.mem_cons_self hb (hkind c hwanted)).allocate _ _ _ _

end Exact

theorem newData_of_isRetx {c : DlCandidate} (h : c.isRetx = true) : c.newData = false := by
  simp [DlCandidate.newData, h]

theorem newData_of_noData {c : DlCandidate} (h : (!c.isRetx && c.pendingBytes == 0) = true) :
    c.newData = false := by
  have hempty : c.pendingBytes = 0 := by simpa using (Bool.and_eq_true_iff.mp h).2
  simp [DlCandidate.newData, hempty]

/-- Retransmissions and control elements leave candidates with new data alone. -/
theorem allocRetxAndNoDataPf_advances (s : SlotState) (order : List DlCandidate) :
    Advances (fun c => c.newData = false) s order
      (allocRetxAndNoDataPf env params s order).state
      (allocRetxAndNoDataPf env params s order).order := by
  have hretx := (allocExactPf_advances env params (fun c => c.isRetx) (fun c => c.retxRbSize)
    s order).mono fun c => newData_of_isRetx
  simp only [allocRetxAndNoDataPf]
  split_ifs
  · exact hretx
  · exact hretx.trans ((allocExactPf_advances env params _ _ _ _).mono fun c => newData_of_noData)

/-- The early passes leave a beam alone when every candidate without new data on it fails its
validation. -/
theorem allocRetxAndNoDataPf_vrbMap {kind : DlCandidate → Prop} {b : ℕ} (s : SlotState)
    (order : List DlCandidate) (hkind : ∀ c : DlCandidate, c.newData = false → kind c.identity)
    (h : Quiet env kind b order) :
    (allocRetxAndNoDataPf env params s order).state.vrbMap b = s.vrbMap b := by
  have hretx := allocExactPf_vrbMap env params (fun c => c.isRetx) (fun c => c.retxRbSize) s order
    (fun c hc => hkind c (newData_of_isRetx hc)) h
  have hadv := allocExactPf_advances env params (fun c => c.isRetx) (fun c => c.retxRbSize) s order
  simp only [allocRetxAndNoDataPf]
  split_ifs
  · exact hretx
  · rw [allocExactPf_vrbMap env params _ _ _ _ (fun c hc => hkind c (newData_of_noData hc))
      (h.advance hadv)]
    exact hretx

section Newtx

variable (policy : Option ℕ) (rbBudget : ℕ)

theorem newtxServes_iff {mac : SliceState} {c : DlCandidate} :
    newtxServes mac policy c = true ↔
      c.scheduled = false ∧ c.newData = true ∧
        match policy with
        | some i => c.nssai = (mac.dlSlicePolicy.entry i).nssai
        | none => mac.findSlicePolicy c.nssai = none := by
  unfold newtxServes DlCandidate.newData
  cases policy with
  | none => simp [and_assoc]
  | some i => simp [and_assoc]

/-- The size the new-data pass asks for, given the block on offer. -/
def newtxRbSize (c : DlCandidate) (maxRbSize : ℕ) : ℕ :=
  (nrFindNbRb (env.tbsBytes c) c.bytesToSend minRbSize maxRbSize).2.2

/-- What `alloc_newtx_pf` does with one candidate: pass over it, break off when the rest of the
budget is too small, or commit a size within the block on offer and stop or go on. -/
theorem allocNewtxPf_cons (used : ℕ) (s : SlotState) (c : DlCandidate)
    (order : List DlCandidate) :
    allocNewtxPf env params policy rbBudget used s (c :: order) =
        (allocNewtxPf env params policy rbBudget used s order).after c ∨
      (0 < rbBudget ∧ rbBudget - used < minRbSize ∧
        allocNewtxPf env params policy rbBudget used s (c :: order) =
          ⟨s, c :: order, false, used⟩) ∨
      newtxServes s.mac policy c = true ∧ ∃ rbStart rbSize,
        (0 < rbBudget → minRbSize ≤ rbSize ∧ rbSize ≤ rbBudget - used) ∧
        let commit := commitAllocOrStop env params s c rbStart rbSize c.schedPdsch.mcs
        allocNewtxPf env params policy rbBudget used s (c :: order) =
            ⟨commit.state, commit.cand :: order, true, commit.state.nScheduled⟩ ∨
          allocNewtxPf env params policy rbBudget used s (c :: order) =
            (allocNewtxPf env params policy rbBudget (used + rbSize)
              { commit.state with
                mac := addSlicePolicyPrbStats params commit.state.mac policy rbSize }
              order).after commit.cand := by
  rw [allocNewtxPf]
  by_cases hskip : (!newtxServes s.mac policy c) = true
  · rw [if_pos hskip]
    exact .inl rfl
  · rw [if_neg hskip]
    have hserves : newtxServes s.mac policy c = true := by simpa using hskip
    dsimp only
    -- without a budget `remaining` is 0 and limits nothing, so its value is kept apart
    generalize hremaining : (if rbBudget > 0 then rbBudget - used else 0) = remaining
    by_cases hbreak : rbBudget > 0 ∧ remaining < minRbSize
    · rw [if_pos hbreak]
      rw [if_pos hbreak.1] at hremaining
      exact .inr (.inl ⟨hbreak.1, by omega, rfl⟩)
    · rw [if_neg hbreak]
      by_cases hblock : (getLimitedFreeBlock s.vrbMap c remaining).1 < minRbSize
      · rw [if_pos hblock]
        exact .inl rfl
      · rw [if_neg hblock]
        -- the size is the search's result, which lies between the minimum and the block
        refine .inr (.inr ⟨hserves, (getLimitedFreeBlock s.vrbMap c remaining).2,
          newtxRbSize env c (getLimitedFreeBlock s.vrbMap c remaining).1, ?_, ?_⟩)
        · intro hpos
          rw [if_pos hpos] at hremaining
          have hremaining_pos : 0 < remaining := by
            unfold minRbSize at hbreak
            omega
          have hlimit := getLimitedFreeBlock_le s.vrbMap c hremaining_pos
          obtain ⟨hmin, hmax⟩ := nrFindNbRb_mem (env.tbsBytes c) c.bytesToSend
            (Nat.le_of_not_lt hblock)
          exact ⟨hmin, by unfold newtxRbSize; omega⟩
        · split_ifs
          · exact .inl rfl
          · exact .inr rfl

/-- A served candidate with enough budget and a large enough block gets a commit. -/
theorem allocNewtxPf_cons_served (used : ℕ) {s : SlotState} {c : DlCandidate}
    (order : List DlCandidate) (hpos : 0 < rbBudget) (hserves : newtxServes s.mac policy c = true)
    (hrest : minRbSize ≤ rbBudget - used)
    (hblock : minRbSize ≤ (getLimitedFreeBlock s.vrbMap c (rbBudget - used)).1) :
    ∃ order', (allocNewtxPf env params policy rbBudget used s (c :: order)).order =
      (commitAllocOrStop env params s c (getLimitedFreeBlock s.vrbMap c (rbBudget - used)).2
        (newtxRbSize env c (getLimitedFreeBlock s.vrbMap c (rbBudget - used)).1)
        c.schedPdsch.mcs).cand :: order' := by
  have hskip : ¬ (!newtxServes s.mac policy c) = true := by simp [hserves]
  have hbreak : ¬ (rbBudget > 0 ∧ rbBudget - used < minRbSize) := fun h => by omega
  rw [allocNewtxPf, if_neg hskip]
  dsimp only
  rw [if_pos hpos, if_neg hbreak, if_neg (Nat.not_lt.mpr hblock)]
  split_ifs
  · exact ⟨order, rfl⟩
  · exact ⟨_, rfl⟩

theorem allocNewtxPf_advances {mac : SliceState} (used : ℕ) (s : SlotState)
    (order : List DlCandidate) (htable : SameTable mac s.mac) :
    Advances (fun c => newtxServes mac policy c = true) s order
      (allocNewtxPf env params policy rbBudget used s order).state
      (allocNewtxPf env params policy rbBudget used s order).order := by
  induction order generalizing used s with
  | nil => exact .refl _ s []
  | cons c order ih =>
    rcases allocNewtxPf_cons env params policy rbBudget used s c order with
      heq | ⟨-, -, heq⟩ | ⟨hserves, rbStart, rbSize, -, heq | heq⟩
    · rw [heq]
      exact .after (.inl rfl) (.refl s.mac) (ih used s htable)
    · rw [heq]
      exact .refl _ s (c :: order)
    · rw [htable.newtxServes_eq] at hserves
      have hun : c.scheduled = false := ((newtxServes_iff policy).mp hserves).1
      rw [heq]
      refine ⟨?_, .cons (served_commit hserves hun) (Advances.refl _ s order).cands⟩
      rw [commitAllocOrStop_mac]
      exact .refl s.mac
    · rw [htable.newtxServes_eq] at hserves
      have hun : c.scheduled = false := ((newtxServes_iff policy).mp hserves).1
      have hstats := sameTable_addSlicePolicyPrbStats params s.mac policy rbSize
      rw [heq, commitAllocOrStop_mac]
      exact .after (served_commit hserves hun) hstats (ih _ _ (htable.trans hstats))

/-- The VRB map of a beam is untouched when every served candidate on it fails its validation. -/
theorem allocNewtxPf_vrbMap {mac : SliceState} {kind : DlCandidate → Prop} {b : ℕ} (used : ℕ)
    (s : SlotState) (order : List DlCandidate) (htable : SameTable mac s.mac)
    (hkind : ∀ c, newtxServes mac policy c = true → kind c.identity)
    (h : Quiet env kind b order) :
    (allocNewtxPf env params policy rbBudget used s order).state.vrbMap b = s.vrbMap b := by
  induction order generalizing used s with
  | nil => rfl
  | cons c order ih =>
    have hrest : Quiet env kind b order := fun x hx => h x (List.mem_cons_of_mem c hx)
    rcases allocNewtxPf_cons env params policy rbBudget used s c order with
      heq | ⟨-, -, heq⟩ | ⟨hserves, rbStart, rbSize, -, heq | heq⟩
    · rw [heq]
      exact ih used s htable hrest
    · rw [heq]
    · rw [htable.newtxServes_eq] at hserves
      rw [heq]
      exact commitAllocOrStop_vrbMap fun hb =>
        (h c List.mem_cons_self hb (hkind c hserves)).allocate _ _ _ _
    · rw [htable.newtxServes_eq] at hserves
      have hstats := sameTable_addSlicePolicyPrbStats params s.mac policy rbSize
      rw [heq, Pass.after_state, commitAllocOrStop_mac, ih _ _ (htable.trans hstats) hrest]
      exact commitAllocOrStop_vrbMap fun hb =>
        (h c List.mem_cons_self hb (hkind c hserves)).allocate _ _ _ _

end Newtx

end Passes

def SameBeam (c c' : DlCandidate) : Prop := c.allocBeamIdx = c'.allocBeamIdx

theorem sameBeam_of_mem_beamGroups {cands g : List DlCandidate} (hg : g ∈ beamGroups cands)
    {c c' : DlCandidate} (hc : c ∈ g) (hc' : c' ∈ g) : SameBeam c c' :=
  SortedRuns.key_eq_of_mem_runs hg hc hc'

theorem beamGroups_pairwise {cands : List DlCandidate}
    (h : cands.Pairwise fun c c' => c.allocBeamIdx ≤ c'.allocBeamIdx) :
    (beamGroups cands).Pairwise fun g g' => ∀ c ∈ g, ∀ c' ∈ g', ¬ SameBeam c c' := by
  have hlt := SortedRuns.runs_pairwise h
  exact hlt.imp fun hgg' c hc c' hc' => (hgg' c hc c' hc').ne

end LlmHric.Mac
