import LlmHric.Library.Sweep
import LlmHric.Mac.ResourceBlocks
import LlmHric.Mac.BeamReservation
import LlmHric.Mac.UlHarq
import Mathlib.Algebra.Group.Int.Defs
import Mathlib.Algebra.Group.Nat.Defs

/-! For a target slot the MAC collects one candidate for each connected UE, reserves beams, picks a
time-domain allocation for every candidate, calls the resource-block policy once for each beam and
dispatches the PUSCH of every candidate that was scheduled. The default policy serves
retransmissions first, then UEs without data, then new data, and looks for the largest free block of
the candidate's bandwidth part each time.

An assertion that fails, and a loop that does not end, are both `none`. What the source computes
with floating-point numbers or tables is collected in a `UlEnv`. -/

namespace LlmHric.Mac

open Sweep

/-! ### Data -/

/-- `NR_tda_info_t`. -/
structure NrTdaInfo where
  startSymbolIndex : ℕ
  nrOfSymbols : ℕ
  k2 : ℕ
  deriving DecidableEq

/-- `SL_to_bitmap`. -/
def slToBitmap (startSymbolIndex nrOfSymbols : ℕ) : BitVec 16 :=
  BitVec.ofNat 16 ((2 ^ nrOfSymbols - 1) * 2 ^ startSymbolIndex)

/-- The symbols of an allocation. -/
def NrTdaInfo.slbitmap (tda : NrTdaInfo) : BitVec 16 :=
  slToBitmap tda.startSymbolIndex tda.nrOfSymbols

/-- `NR_sched_pusch_t`; a negative process is none. -/
structure SchedPusch where
  frame : ℕ
  slot : UInt16
  rbSize : ℕ
  rbStart : ℕ
  mcs : ℕ
  r : ℕ
  qm : ℕ
  tbSize : ℕ
  ulHarqPid : Option ℕ
  nrOfLayers : ℕ
  timeDomainAllocation : ℕ
  tdaInfo : NrTdaInfo
  bwpStart : ℕ
  bwpSize : ℕ
  deriving DecidableEq

/-- An allocation that is all zero. -/
def SchedPusch.zero : SchedPusch :=
  ⟨0, 0, 0, 0, 0, 0, 0, 0, some 0, 0, 0, ⟨0, 0, 0⟩, 0, 0⟩

/-- `NR_UE_info_t`, with what the uplink scheduler reads of it. -/
structure NrUeInfo where
  isActive : Bool
  bwpStart : ℕ
  bwpSize : ℕ
  initialUlBwpSize : ℕ
  dciFormat00 : Bool
  commonSearchSpace : Bool
  transformPrecoding : Bool
  ulRi : ℕ
  ueBeamIndex : ℕ
  estimatedUlBuffer : ℤ
  /-- The timer `transm_interrupt` is running. -/
  transmInterrupt : Bool
  lastUlFrame : ℕ
  lastUlSlot : ℕ
  ph : ℤ
  pcmax : ℤ
  schedCtrl : NrUeUlSchedCtrl
  /-- The `sched_pusch` of every uplink HARQ process. -/
  schedPusch : ℕ → SchedPusch

/-- `nr_ul_candidate_t`; the UE is a number. A beam that was not allocated is -1. -/
structure UlCandidate where
  ue : ℕ
  isRetx : Bool
  retxHarqPid : ℕ
  retxRbSize : ℕ
  schedInactive : Bool
  pendingBytes : ℕ
  currentMcs : ℕ
  bwpStart : ℕ
  bwpSize : ℕ
  beamIndex : ℕ
  ph : ℤ
  pcmax : ℤ
  skipped : Bool
  scheduled : Bool
  schedPusch : SchedPusch
  allocSlbitmap : BitVec 16
  allocBeamIdx : ℤ
  allocDciBeamNew : Bool
  allocSchedBeamNew : Bool

/-- The cell: its configuration, and what the source computes with tables, floating-point numbers
or a sort. -/
structure UlEnv where
  harqRoundMax : UInt8
  disableHarq : Bool
  minGrantPrb : ℕ
  ulTda : List NrTdaInfo
  /-- The symbols of a slot that `get_ul_bitmap` gives. -/
  getUlBitmap : ℕ → BitVec 16
  ulprbbl : ℕ → BitVec 16
  slotsPerFrame : ℕ
  numbSlotsPeriod : ℕ
  /-- `get_first_ul_slot` with time division. -/
  firstUlSlot : Option ℕ
  ulschMaxFrameInactivity : ℕ
  /-- `update_ul_ue_R_Qm`, for an MCS. -/
  updateUlUeRQm : NrUeInfo → ℕ → ℕ × ℕ
  /-- `nr_compute_tbs` in bytes, with the DMRS of `get_ul_dmrs_params` for the time-domain
  allocation and the layers, for a modulation, a code rate and a number of resource blocks. -/
  nrComputeTbs : NrUeInfo → NrTdaInfo → ℕ → ℕ × ℕ → ℕ → ℕ
  /-- The power `compute_ph_rb_factor` and `compute_ph_mcs_factor` give for a time-domain
  allocation, layers, a number of resource blocks and an MCS. -/
  phTxPower : NrUeInfo → NrTdaInfo → ℕ → ℕ → ℕ → ℤ
  /-- The MCS of `nr_ul_mcs_select_default` for new data. -/
  ulMcsSelect : NrUeInfo → UlCandidate → ℕ
  /-- The order in which `qsort` leaves candidates when beams are reserved. -/
  pfSort : List UlCandidate → List UlCandidate
  pfSort_perm (cands : List UlCandidate) : (pfSort cands).Perm cands
  /-- The order in which `qsort` leaves the candidates of a policy call. -/
  pfRbSort : List UlCandidate → List UlCandidate
  pfRbSort_perm (cands : List UlCandidate) : (pfRbSort cands).Perm cands
  /-- The order in which `qsort` leaves candidates compared by their beam. -/
  beamSort : List UlCandidate → List UlCandidate
  beamSort_perm (cands : List UlCandidate) : (beamSort cands).Perm cands
  beamSort_pairwise (cands : List UlCandidate) :
    (beamSort cands).Pairwise fun c c' => c.allocBeamIdx ≤ c'.allocBeamIdx

/-- A target slot, with what is decided outside. -/
structure UlTarget where
  frame : ℕ
  slot : ℕ
  schedFrame : ℕ
  schedSlot : ℕ
  k2 : ℕ
  /-- The outcome of the `k`-th CCE validation. -/
  nrUlValidateCce : ℕ → UlCandidate → Bool

/-- What the scheduler changes. -/
structure UlCell where
  ues : ℕ → NrUeInfo
  /-- The table of beams; `none` without beams. -/
  beamInfo : Option NrBeamInfo

/-! ### Candidates -/

/-- `get_pusch_bwp_start_size`. -/
def getPuschBwpStartSize (ue : NrUeInfo) : ℕ × ℕ :=
  (ue.bwpStart,
    if ue.dciFormat00 && ue.commonSearchSpace then min ue.bwpSize ue.initialUlBwpSize
    else ue.bwpSize)

/-- `nr_UE_is_to_be_scheduled`, for the target slot; the last comparison is unsigned. -/
def nrUeIsToBeScheduled (env : UlEnv) (target : UlTarget) (ue : NrUeInfo) : Bool :=
  let n : ℤ := env.slotsPerFrame
  let now := target.schedFrame * n + target.schedSlot
  let lastUlSched := ue.lastUlFrame * n + env.firstUlSlot.getD ue.lastUlSlot
  let diff := (now - lastUlSched + 1024 * n).tmod (1024 * n)
  let hasData := decide (ue.estimatedUlBuffer > ue.schedCtrl.schedUlBytes)
  let limit : ℤ := if env.ulschMaxFrameInactivity > 0 then env.ulschMaxFrameInactivity * n
    else env.numbSlotsPeriod
  hasData || ue.schedCtrl.sr || decide (diff % 2 ^ 32 ≥ limit % 2 ^ 32)

/-- The fields of a candidate that do not depend on what it is for. -/
def NrUeInfo.candidate (i : ℕ) (ue : NrUeInfo) : UlCandidate where
  ue := i
  isRetx := false
  retxHarqPid := 0
  retxRbSize := 0
  schedInactive := false
  pendingBytes := 0
  currentMcs := 0
  bwpStart := (getPuschBwpStartSize ue).1
  bwpSize := (getPuschBwpStartSize ue).2
  beamIndex := ue.ueBeamIndex
  ph := ue.ph
  pcmax := ue.pcmax
  skipped := false
  scheduled := false
  schedPusch := .zero
  allocSlbitmap := 0
  allocBeamIdx := -1
  allocDciBeamNew := false
  allocSchedBeamNew := false

/-- One round of `collect_ul_candidates`. -/
def collectUlCandidate (env : UlEnv) (target : UlTarget) (i : ℕ) (ue : NrUeInfo) :
    Option UlCandidate :=
  if !ue.isActive then none
  else
    match ue.schedCtrl.retransUlHarq.head with
    | some pid => some { ue.candidate i with
        isRetx := true
        retxHarqPid := pid
        retxRbSize := (ue.schedPusch pid).rbSize
        currentMcs := (ue.schedPusch pid).mcs }
    | none =>
      if ue.schedCtrl.availableUlHarq.head = none then none
      else
        let b := max 0 (ue.estimatedUlBuffer - ue.schedCtrl.schedUlBytes)
        let doSched := nrUeIsToBeScheduled env target ue
        if (b == 0 && !doSched) || ue.transmInterrupt then none
        else some { ue.candidate i with
          schedInactive := b == 0 && doSched
          pendingBytes := b.toNat }

/-- `collect_ul_candidates`. -/
def collectUlCandidates (env : UlEnv) (target : UlTarget) (ues : ℕ → NrUeInfo)
    (connected : List ℕ) : List UlCandidate :=
  connected.filterMap fun i => collectUlCandidate env target i (ues i)

/-- `nr_ul_ri_tpmi_select_default`. -/
def nrUlRiTpmiSelectDefault (ues : ℕ → NrUeInfo) (cands : List UlCandidate) : List UlCandidate :=
  cands.map fun c => { c with
    schedPusch := { c.schedPusch with
      nrOfLayers := if (ues c.ue).dciFormat00 then 1 else (ues c.ue).ulRi + 1 } }

/-- `beam_allocation_procedure` in a slot, also without beams. -/
def ulBeamAllocation (slotsPerFrame frame slot : ℕ) (info : Option NrBeamInfo) (beamIndex : ℕ) :
    Option NrBeamInfo × NrBeamAlloc :=
  match info with
  | none => (none, ⟨false, some 0⟩)
  | some info =>
    let beam := beamAllocationProcedure info (info.getBeamIndex frame slot slotsPerFrame) beamIndex
    (some beam.1, beam.2)

/-- `reset_beam_status` in a slot, also without beams. -/
def ulResetBeamStatus (slotsPerFrame frame slot : ℕ) (info : Option NrBeamInfo) (beamIndex : ℕ)
    (newBeam : Bool) : Option NrBeamInfo :=
  info.map fun info =>
    resetBeamStatus info (info.getBeamIndex frame slot slotsPerFrame) beamIndex newBeam

/-- One round of `nr_ul_beam_select_default`: a beam in the slot of the DCI and one in that of the
PUSCH. -/
def ulBeamSelect (n : ℕ) (target : UlTarget) (info : Option NrBeamInfo) (c : UlCandidate) :
    Option NrBeamInfo × UlCandidate :=
  let dci := ulBeamAllocation n target.frame target.slot info c.beamIndex
  match dci.2.idx with
  | none => (dci.1, { c with skipped := true })
  | some _ =>
    let sched := ulBeamAllocation n target.schedFrame target.schedSlot dci.1 c.beamIndex
    match sched.2.idx with
    | none =>
      (ulResetBeamStatus n target.frame target.slot sched.1 c.beamIndex dci.2.newBeam,
        { c with skipped := true })
    | some i =>
      (sched.1, { c with
        allocBeamIdx := i
        allocDciBeamNew := dci.2.newBeam
        allocSchedBeamNew := sched.2.newBeam })

/-- The loop of `nr_ul_beam_select_default`. -/
def ulBeamSelectLoop (n : ℕ) (target : UlTarget) :
    Option NrBeamInfo → List UlCandidate → Option NrBeamInfo × List UlCandidate
  | info, [] => (info, [])
  | info, c :: order =>
    let beam := ulBeamSelect n target info c
    let rest := ulBeamSelectLoop n target beam.1 order
    (rest.1, beam.2 :: rest.2)

/-- `nr_ul_beam_select_default`, for candidates none of which is dropped yet. -/
def nrUlBeamSelectDefault (env : UlEnv) (target : UlTarget) (info : Option NrBeamInfo)
    (cands : List UlCandidate) : Option NrBeamInfo × List UlCandidate :=
  ulBeamSelectLoop env.slotsPerFrame target info (env.pfSort cands)

/-- The loop of `nr_ul_schedule` that releases the beams of rejected candidates. -/
def releaseUlBeams (n : ℕ) (target : UlTarget) :
    Option NrBeamInfo → List UlCandidate → Option NrBeamInfo
  | info, [] => info
  | info, c :: cands =>
    if !c.scheduled && !c.skipped then
      let info :=
        ulResetBeamStatus n target.frame target.slot info c.beamIndex c.allocDciBeamNew
      releaseUlBeams n target
        (ulResetBeamStatus n target.schedFrame target.schedSlot info c.beamIndex
          c.allocSchedBeamNew) cands
    else releaseUlBeams n target info cands

/-! ### Time-domain allocations -/

/-- The first loop of `get_num_ul_tda`, from index `i` on. -/
def firstUlTda (ulBitmap : BitVec 16) (k2 : ℕ) : ℕ → List NrTdaInfo → Option ℕ
  | _, [] => none
  | i, tda :: tdas =>
    if tda.k2 < k2 then firstUlTda ulBitmap k2 (i + 1) tdas
    else if tda.k2 > k2 then none
    else if tda.slbitmap &&& ulBitmap = tda.slbitmap then some i
    else firstUlTda ulBitmap k2 (i + 1) tdas

/-- `get_num_ul_tda`: the first index and the number of entries on offer. All entries with the same
`k2` behind the first one have to fit into the slot. -/
def getNumUlTda (ulTda : List NrTdaInfo) (ulBitmap : BitVec 16) (k2 : ℕ) : Option (ℕ × ℕ) :=
  match firstUlTda ulBitmap k2 0 ulTda with
  | none => some (0, 0)
  | some first =>
    let rest := (ulTda.drop (first + 1)).takeWhile fun tda => tda.k2 = k2
    if rest.all fun tda => tda.slbitmap &&& ulBitmap = tda.slbitmap then
      some (first, rest.length + 1)
    else none

/-- One round of `get_max_rb_range`. -/
def BlockScan.nextRange (free : ℕ → Bool) (scan : BlockScan) (rb : ℕ) : BlockScan :=
  if free rb then { scan with curLen := scan.curLen + 1 }
  else { scan.close with curStart := rb + 1, curLen := 0 }

/-- The length that `get_max_rb_range` finds among the first `rbLen` resource blocks. -/
def getMaxRbRange (vrbMap : VrbMap) (ulprbbl : ℕ → BitVec 16) (mask : BitVec 16) (rbLen : ℕ) : ℕ :=
  ((List.range rbLen).foldl
    (BlockScan.nextRange fun rb => ulprbbl rb == 0 && mask &&& vrbMap rb == 0)
    ⟨0, 0, 0, 0⟩).close.bestLen

/-- The loop of `get_best_ul_tda` from offset `i` on: the best offset so far and its score. -/
def bestUlTdaFrom (vrbMap : VrbMap) (ulprbbl : ℕ → BitVec 16) (rbLen : ℕ) :
    ℕ → List NrTdaInfo → ℕ × ℕ → ℕ × ℕ
  | _, [], best => best
  | i, tda :: tdas, best =>
    let score := tda.nrOfSymbols * getMaxRbRange vrbMap ulprbbl tda.slbitmap rbLen
    bestUlTdaFrom vrbMap ulprbbl rbLen (i + 1) tdas (if score > best.2 then (i, score) else best)

/-- `get_best_ul_tda`: the offset of the entry with most free resource elements. -/
def getBestUlTda (vrbMap : VrbMap) (ulprbbl : ℕ → BitVec 16) (rbLen : ℕ)
    (tdas : List NrTdaInfo) : ℕ :=
  (bestUlTdaFrom vrbMap ulprbbl rbLen 0 tdas (0, 0)).1

/-- `check_ul_retx_feasibility`: the resource blocks that keep the transport block size of the
retransmission, or 0. -/
def checkUlRetxFeasibility (env : UlEnv) (ue : NrUeInfo) (retInfo : SchedPusch) (tda : NrTdaInfo)
    (maxRbSize : ℕ) : Option ℕ := do
  let found ← nrFindNbRbUl ue.transformPrecoding
    (env.nrComputeTbs ue tda retInfo.nrOfLayers (retInfo.r, retInfo.qm)) retInfo.tbSize 1 maxRbSize
  if !found.1 || found.2.1 != retInfo.tbSize then some 0 else some found.2.2

/-- Write a time-domain allocation. -/
def UlCandidate.withTda (c : UlCandidate) (index : ℕ) (tda : NrTdaInfo) : UlCandidate :=
  { c with
    schedPusch := { c.schedPusch with timeDomainAllocation := index, tdaInfo := tda }
    allocSlbitmap := tda.slbitmap }

/-- One round of `nr_ul_tda_select_default`, with the window of entries on offer. -/
def ulTdaSelect (env : UlEnv) (ues : ℕ → NrUeInfo) (vrbMap : ℤ → VrbMap) (window : ℕ × ℕ)
    (c : UlCandidate) : Option UlCandidate :=
  if c.skipped then some c
  else
    let tdas := (env.ulTda.drop window.1).take window.2
    let index := window.1 +
      getBestUlTda (vrbMap c.allocBeamIdx) env.ulprbbl c.bwpSize tdas
    if c.isRetx then do
      let retInfo := (ues c.ue).schedPusch c.retxHarqPid
      let orig ← env.ulTda[retInfo.timeDomainAllocation]?
      if window.1 ≤ retInfo.timeDomainAllocation ∧
          retInfo.timeDomainAllocation < window.1 + window.2 then
        some { c.withTda retInfo.timeDomainAllocation orig with retxRbSize := retInfo.rbSize }
      else do
        let best ← env.ulTda[index]?
        if index < 16 then do
          let needed ← checkUlRetxFeasibility env (ues c.ue) retInfo best c.bwpSize
          if needed = 0 then some { c with skipped := true }
          else some { c.withTda index best with retxRbSize := needed }
        else none
    else do
      let best ← env.ulTda[index]?
      if index < 16 then some (c.withTda index best) else none

/-- `nr_ul_tda_select_default`: the number of candidates with an allocation, and the candidates. -/
def nrUlTdaSelectDefault (env : UlEnv) (ues : ℕ → NrUeInfo) (target : UlTarget)
    (vrbMap : ℤ → VrbMap)
    (cands : List UlCandidate) : Option (ℕ × List UlCandidate) := do
  let window ← getNumUlTda env.ulTda (env.getUlBitmap target.schedSlot) target.k2
  if window.2 = 0 then some (0, cands)
  else do
    let cands ← cands.mapM (ulTdaSelect env ues vrbMap window)
    some (cands.countP fun c => !c.skipped, cands)

/-- `nr_ul_mcs_select_default`. -/
def nrUlMcsSelectDefault (env : UlEnv) (ues : ℕ → NrUeInfo) (cands : List UlCandidate) :
    List UlCandidate :=
  cands.map fun c => { c with
    schedPusch := { c.schedPusch with
      mcs := if c.isRetx then c.currentMcs else env.ulMcsSelect (ues c.ue) c } }

/-! ### The resource-block policy -/

/-- What a policy call changes. -/
structure UlPolicyState where
  /-- `vrb_map_UL` of every beam. -/
  vrbMap : ℤ → VrbMap
  /-- CCE validations made so far. -/
  validations : ℕ
  /-- The count `n_scheduled` of the policy call. -/
  nScheduled : ℕ
  /-- The search for a size does not end. -/
  hung : Bool

/-- `nr_ul_phr_suggestion_t`. -/
structure NrUlPhrSuggestion where
  rbSize : ℕ
  mcs : ℕ
  valid : Bool

/-- `nr_ul_phr_advice_t`. -/
structure NrUlPhrAdvice where
  maxMcsMinRb : NrUlPhrSuggestion
  sameRbMinMcs : NrUlPhrSuggestion

/-- The first loop of `nr_ul_check_phr`, which gives up resource blocks. -/
def phrReduceRbs (txPower : ℕ → ℤ) (ph : ℤ) (minRb : ℕ) : ℕ → ℕ
  | 0 => 0
  | rbSize + 1 =>
    if ph < txPower (rbSize + 1) ∧ rbSize + 1 > minRb then phrReduceRbs txPower ph minRb rbSize
    else rbSize + 1

/-- The loops of `nr_ul_check_phr` that lower the MCS. -/
def phrReduceMcs (txPower : ℕ → ℤ) (ph : ℤ) : ℕ → ℕ
  | 0 => 0
  | mcs + 1 => if ph < txPower (mcs + 1) then phrReduceMcs txPower ph mcs else mcs + 1

/-- `nr_ul_check_phr`: no advice when the allocation respects the power headroom. -/
def nrUlCheckPhr (env : UlEnv) (ue : NrUeInfo) (c : UlCandidate) (rbSize mcs : ℕ) :
    Option NrUlPhrAdvice :=
  let txPower := env.phTxPower ue c.schedPusch.tdaInfo c.schedPusch.nrOfLayers
  if c.ph ≥ txPower rbSize mcs then none
  else
    let rbSize' := phrReduceRbs (fun rb => txPower rb mcs) c.ph env.minGrantPrb rbSize
    let mcs' := phrReduceMcs (txPower rbSize') c.ph mcs
    let mcs'' := phrReduceMcs (txPower rbSize) c.ph mcs
    some {
      maxMcsMinRb := ⟨rbSize', mcs', decide (c.ph ≥ txPower rbSize' mcs')⟩
      sameRbMinMcs := ⟨rbSize, mcs'', decide (c.ph ≥ txPower rbSize mcs'')⟩ }

/-- Write an allocation. -/
def UlCandidate.allocate (c : UlCandidate) (rbStart rbSize mcs : ℕ) : UlCandidate :=
  { c with schedPusch := { c.schedPusch with rbStart := rbStart, rbSize := rbSize, mcs := mcs } }

/-- The `COMMIT_UL_ALLOC` block: validate the CCE and take the symbols of the allocation. The
`continue` of the block leaves its own loop only, and no statement follows the block. -/
def commitUlAllocOrStop (target : UlTarget) (maxNumUe : ℕ) (s : UlPolicyState) (c : UlCandidate)
    (rbStart rbSize mcs : ℕ) : Visit UlPolicyState UlCandidate :=
  let c := c.allocate rbStart rbSize mcs
  let counted := { s with validations := s.validations + 1 }
  if !target.nrUlValidateCce s.validations c then { state := counted, item := c, stop := false }
  else
    { state := { counted with
        vrbMap := Function.update s.vrbMap c.allocBeamIdx
          ((s.vrbMap c.allocBeamIdx).mark c.allocSlbitmap (rbStart + c.bwpStart) rbSize)
        nScheduled := s.nScheduled + 1 }
      item := { c with scheduled := true }
      stop := s.nScheduled + 1 ≥ maxNumUe }

/-- The largest free block on the candidate's beam. -/
def UlCandidate.freeBlock (c : UlCandidate) (vrbMap : ℤ → VrbMap) : ℕ × ℕ :=
  findLargestFreeBlock (vrbMap c.allocBeamIdx) c.allocSlbitmap c.bwpStart c.bwpSize

/-- One round of the first two phases: every wanted candidate gets the resource blocks it needs. -/
def exactUlVisit (target : UlTarget) (maxNumUe : ℕ) (wanted : UlCandidate → Bool)
    (neededRbs : UlCandidate → ℕ) (s : UlPolicyState) (c : UlCandidate) :
    Visit UlPolicyState UlCandidate :=
  if !wanted c then .pass s c
  else
    let block := c.freeBlock s.vrbMap
    if block.1 < neededRbs c then .pass s c
    else commitUlAllocOrStop target maxNumUe s c block.2 (neededRbs c) c.schedPusch.mcs

/-- The block that phase 3 offers and the MCS, after the power check. -/
def ulOffer (env : UlEnv) (ue : NrUeInfo) (c : UlCandidate) (blockLen : ℕ) : ℕ × ℕ :=
  if c.pcmax ≠ 0 ∨ c.ph ≠ 0 then
    match nrUlCheckPhr env ue c blockLen c.schedPusch.mcs with
    | none => (blockLen, c.schedPusch.mcs)
    | some advice => (advice.maxMcsMinRb.rbSize, advice.maxMcsMinRb.mcs)
  else (blockLen, c.schedPusch.mcs)

/-- One round of the third phase. -/
def newDataUlVisit (env : UlEnv) (ues : ℕ → NrUeInfo) (target : UlTarget) (maxNumUe : ℕ)
    (s : UlPolicyState) (c : UlCandidate) : Visit UlPolicyState UlCandidate :=
  if c.isRetx || c.schedInactive then .pass s c
  else
    let block := c.freeBlock s.vrbMap
    if block.1 < env.minGrantPrb then .pass s c
    else
      let offer := ulOffer env (ues c.ue) c block.1
      let tbs := env.nrComputeTbs (ues c.ue) c.schedPusch.tdaInfo c.schedPusch.nrOfLayers
        (env.updateUlUeRQm (ues c.ue) offer.2)
      match nrFindNbRbUl (ues c.ue).transformPrecoding tbs c.pendingBytes env.minGrantPrb
          offer.1 with
      | none => { state := { s with hung := true }, item := c, stop := true }
      | some found => commitUlAllocOrStop target maxNumUe s c block.2 found.2.2 offer.2

/-- The phases of `nr_ul_proportional_fair`. -/
def ulPhases (env : UlEnv) (ues : ℕ → NrUeInfo) (target : UlTarget) (maxNumUe : ℕ) :
    List (UlPolicyState → UlCandidate → Visit UlPolicyState UlCandidate) :=
  [exactUlVisit target maxNumUe (fun c => c.isRetx) fun c => c.retxRbSize,
    exactUlVisit target maxNumUe (fun c => !c.isRetx && c.schedInactive) fun _ => env.minGrantPrb,
    newDataUlVisit env ues target maxNumUe]

/-- `nr_ul_proportional_fair`: the state and the candidates, those that were dropped behind the
others. -/
def nrUlProportionalFair (env : UlEnv) (ues : ℕ → NrUeInfo) (target : UlTarget) (maxNumUe : ℕ)
    (s : UlPolicyState) (cands : List UlCandidate) : Option (UlPolicyState × List UlCandidate) :=
  let order := env.pfRbSort (cands.filter fun c => !c.skipped)
  let pass := runAll (ulPhases env ues target maxNumUe) { s with nScheduled := 0, hung := false }
    order
  if pass.state.hung then none
  else some (pass.state, pass.items ++ cands.filter fun c => c.skipped)

/-! ### Dispatch -/

/-- `apply_ul_retransmission`, up to `post_process_ulsch`. -/
def applyUlRetransmission (env : UlEnv) (ue : NrUeInfo) (c : UlCandidate) (tda : ℕ)
    (tdaInfo : NrTdaInfo) (bi : ℕ × ℕ) (schedFrame schedSlot : ℕ) : Option SchedPusch :=
  let retInfo := ue.schedPusch c.retxHarqPid
  let newSched := { retInfo with
    frame := schedFrame, slot := UInt16.ofNat schedSlot, bwpStart := bi.1, bwpSize := bi.2 }
  if newSched.ulHarqPid ≠ some c.retxHarqPid then none
  else
    let newSched :=
      if retInfo.timeDomainAllocation = tda then
        { newSched with rbStart := c.schedPusch.rbStart }
      else
        { newSched with
          rbSize := c.schedPusch.rbSize
          rbStart := c.schedPusch.rbStart
          tbSize := env.nrComputeTbs ue tdaInfo retInfo.nrOfLayers (retInfo.r, retInfo.qm)
            c.schedPusch.rbSize
          timeDomainAllocation := tda
          tdaInfo := tdaInfo }
    if newSched.timeDomainAllocation = tda then some newSched else none

/-- `apply_ul_new_transmission`, up to `post_process_ulsch`. -/
def applyUlNewTransmission (env : UlEnv) (ue : NrUeInfo) (c : UlCandidate) (tda : ℕ)
    (tdaInfo : NrTdaInfo) (bi : ℕ × ℕ) (schedFrame schedSlot : ℕ) : SchedPusch :=
  let rQm := env.updateUlUeRQm ue c.schedPusch.mcs
  { c.schedPusch with
    frame := schedFrame
    slot := UInt16.ofNat schedSlot
    ulHarqPid := none
    timeDomainAllocation := tda
    tdaInfo := tdaInfo
    bwpStart := bi.1
    bwpSize := bi.2
    r := rQm.1
    qm := rQm.2
    tbSize := env.nrComputeTbs ue tdaInfo c.schedPusch.nrOfLayers rQm c.schedPusch.rbSize }

/-- The grant as `post_process_ulsch` counts it. -/
def SchedPusch.grant (sched : SchedPusch) : NrSchedPusch :=
  ⟨sched.ulHarqPid, sched.slot, sched.tbSize⟩

/-- `post_process_ulsch`: the grant takes a process, the process keeps the allocation, and the UE
its slot. -/
def NrUeInfo.postProcess (env : UlEnv) (sched : SchedPusch) (ue : NrUeInfo) : Option NrUeInfo := do
  let harqId ← sched.ulHarqPid.or ue.schedCtrl.availableUlHarq.head
  let ctrl ← postProcessUlsch env.harqRoundMax env.disableHarq sched.grant ue.schedCtrl
  some { ue with
    schedCtrl := ctrl
    lastUlFrame := sched.frame
    lastUlSlot := sched.slot.toNat
    schedPusch := Function.update ue.schedPusch harqId { sched with ulHarqPid := some harqId } }

def ulPusch (env : UlEnv) (target : UlTarget) (ue : NrUeInfo) (c : UlCandidate) :
    Option SchedPusch :=
  let bi := getPuschBwpStartSize ue
  let tda := c.schedPusch.timeDomainAllocation
  if c.isRetx then
    applyUlRetransmission env ue c tda c.schedPusch.tdaInfo bi target.schedFrame target.schedSlot
  else
    some (applyUlNewTransmission env ue c tda c.schedPusch.tdaInfo bi target.schedFrame
      target.schedSlot)

/-- The loop of `nr_ul_schedule` over the scheduled candidates: the UEs, the VRB maps and what was
dispatched. -/
def dispatchUl (env : UlEnv) (target : UlTarget) :
    (ℕ → NrUeInfo) → (ℤ → VrbMap) → List UlCandidate →
      Option ((ℕ → NrUeInfo) × (ℤ → VrbMap) × List (UlCandidate × SchedPusch))
  | ues, vrbMap, [] => some (ues, vrbMap, [])
  | ues, vrbMap, c :: cands =>
    if !c.scheduled then dispatchUl env target ues vrbMap cands
    else do
      let sched ← ulPusch env target (ues c.ue) c
      let ue ← (ues c.ue).postProcess env sched
      let marked := (vrbMap c.allocBeamIdx).mark sched.tdaInfo.slbitmap
        (sched.rbStart + sched.bwpStart) sched.rbSize
      let rest ← dispatchUl env target (Function.update ues c.ue ue)
        (Function.update vrbMap c.allocBeamIdx marked) cands
      some (rest.1, rest.2.1, (c, sched) :: rest.2.2)

/-- The loop of `nr_ul_schedule` over the beams: one policy call for each. -/
def allocUlBeams (env : UlEnv) (ues : ℕ → NrUeInfo) (target : UlTarget) (maxNumUe : ℕ) :
    UlPolicyState → List (List UlCandidate) → Option (UlPolicyState × List UlCandidate)
  | s, [] => some (s, [])
  | s, cands :: beams =>
    if cands.all fun c => c.allocBeamIdx < 0 then do
      let rest ← allocUlBeams env ues target maxNumUe s beams
      some (rest.1, cands ++ rest.2)
    else do
      let call ← nrUlProportionalFair env ues target maxNumUe s cands
      let rest ← allocUlBeams env ues target maxNumUe call.1 beams
      some (rest.1, call.2 ++ rest.2)

/-- The maximal runs of candidates on one beam. -/
def ulBeamGroups (cands : List UlCandidate) : List (List UlCandidate) :=
  cands.splitBy fun c c' => c.allocBeamIdx == c'.allocBeamIdx

/-- What `nr_ul_schedule` leaves; it returns the number of PUSCH it dispatched. -/
structure UlScheduled where
  cell : UlCell
  vrbMap : ℤ → VrbMap
  dispatched : List (UlCandidate × SchedPusch)

/-- `nr_ul_schedule` from the choice of time-domain allocations on. -/
def ulAllocateAndDispatch (env : UlEnv) (target : UlTarget) (maxNumUe : ℕ) (cell : UlCell)
    (vrbMap : ℤ → VrbMap) (cands : List UlCandidate) : Option UlScheduled := do
  let tda ← nrUlTdaSelectDefault env cell.ues target vrbMap cands
  if tda.1 = 0 then some ⟨cell, vrbMap, []⟩
  else do
    let cands := nrUlMcsSelectDefault env cell.ues tda.2
    let alloc ← allocUlBeams env cell.ues target maxNumUe ⟨vrbMap, 0, 0, false⟩
      (ulBeamGroups (env.beamSort cands))
    let beamInfo := releaseUlBeams env.slotsPerFrame target cell.beamInfo alloc.2
    let done ← dispatchUl env target cell.ues alloc.1.vrbMap alloc.2
    some ⟨⟨done.1, beamInfo⟩, done.2.1, done.2.2⟩

/-- `nr_ul_schedule`. -/
def nrUlSchedule (env : UlEnv) (target : UlTarget) (maxNumUe : ℕ) (cell : UlCell)
    (vrbMap : ℤ → VrbMap) (cands : List UlCandidate) : Option UlScheduled :=
  if cands.length = 0 then some ⟨cell, vrbMap, []⟩
  else
    let beams := nrUlBeamSelectDefault env target cell.beamInfo
      (nrUlRiTpmiSelectDefault cell.ues cands)
    let cell := { cell with beamInfo := beams.1 }
    if beams.2.countP (fun c => !c.skipped) = 0 then some ⟨cell, vrbMap, []⟩
    else ulAllocateAndDispatch env target maxNumUe cell vrbMap beams.2

/-! ### What a round of the policy can do -/

namespace UlCandidate

/-- The phase of the policy that serves the candidate. -/
def phase (c : UlCandidate) : ℕ := if c.isRetx then 0 else if c.schedInactive then 1 else 2

/-- The part of a candidate that the policy does not write. -/
def frame (c : UlCandidate) : UlCandidate := { c.allocate 0 0 0 with scheduled := false }

/-- The resource blocks from `rbStart` on, relative to the bandwidth part, are free for the
candidate and inside its bandwidth part. -/
structure Fits (c : UlCandidate) (vrbMap : ℤ → VrbMap) (rbStart rbSize : ℕ) : Prop where
  inside : rbStart + rbSize ≤ c.bwpSize
  free : FreeRun (fun rb => (vrbMap c.allocBeamIdx).isFree c.allocSlbitmap (rb + c.bwpStart))
    rbStart rbSize

theorem fits_freeBlock (c : UlCandidate) (vrbMap : ℤ → VrbMap) {rbSize : ℕ}
    (h : rbSize ≤ (c.freeBlock vrbMap).1) : c.Fits vrbMap (c.freeBlock vrbMap).2 rbSize := by
  obtain ⟨hinside, hfree⟩ :=
    findLargestFreeBlock_free (vrbMap c.allocBeamIdx) c.allocSlbitmap c.bwpStart c.bwpSize
  exact ⟨(Nat.add_le_add_left h _).trans hinside, hfree.mono h⟩

end UlCandidate

theorem phrReduceRbs_mem {txPower : ℕ → ℤ} {ph : ℤ} {minRb rbSize : ℕ} (h : minRb ≤ rbSize) :
    minRb ≤ phrReduceRbs txPower ph minRb rbSize ∧
      phrReduceRbs txPower ph minRb rbSize ≤ rbSize := by
  induction rbSize with
  | zero => exact ⟨h, le_rfl⟩
  | succ rbSize ih =>
    rw [phrReduceRbs]
    split_ifs with hgo
    · obtain ⟨hlow, hhigh⟩ := ih (Nat.le_of_lt_succ hgo.2)
      exact ⟨hlow, hhigh.trans (Nat.le_succ rbSize)⟩
    · exact ⟨h, le_rfl⟩

/-- The offer lies between the smallest grant and the block. -/
theorem ulOffer_mem (env : UlEnv) (ue : NrUeInfo) (c : UlCandidate) {blockLen : ℕ}
    (h : env.minGrantPrb ≤ blockLen) :
    env.minGrantPrb ≤ (ulOffer env ue c blockLen).1 ∧ (ulOffer env ue c blockLen).1 ≤ blockLen := by
  unfold ulOffer
  split_ifs
  · split
    · exact ⟨h, le_rfl⟩
    next advice hadvice =>
      unfold nrUlCheckPhr at hadvice
      dsimp only at hadvice
      split_ifs at hadvice
      obtain rfl := Option.some.inj hadvice
      exact phrReduceRbs_mem h
  · exact ⟨h, le_rfl⟩

/-- What a round of phase `i` can do with a candidate: pass over it, commit a free block, or not
come back. -/
inductive UlVisitStep (env : UlEnv) (target : UlTarget) (maxNumUe i : ℕ) (s : UlPolicyState)
    (c : UlCandidate) : Visit UlPolicyState UlCandidate → Prop
  | pass : UlVisitStep env target maxNumUe i s c (.pass s c)
  | commit (rbStart rbSize mcs : ℕ) : c.phase = i → c.Fits s.vrbMap rbStart rbSize →
      (c.isRetx = true → rbSize = c.retxRbSize) →
      UlVisitStep env target maxNumUe i s c
        (commitUlAllocOrStop target maxNumUe s c rbStart rbSize mcs)
  | hang : env.minGrantPrb = 0 →
      UlVisitStep env target maxNumUe i s c ⟨{ s with hung := true }, c, true⟩

section Rounds

variable {env : UlEnv} {ues : ℕ → NrUeInfo} {target : UlTarget} {maxNumUe i : ℕ} {s : UlPolicyState}
  {c : UlCandidate}

theorem exactUlVisit_step {wanted : UlCandidate → Bool} {neededRbs : UlCandidate → ℕ}
    (hphase : wanted c = true → c.phase = i)
    (hretx : wanted c = true → c.isRetx = true → neededRbs c = c.retxRbSize) :
    UlVisitStep env target maxNumUe i s c (exactUlVisit target maxNumUe wanted neededRbs s c) := by
  unfold exactUlVisit
  cases hwanted : wanted c with
  | false => exact .pass
  | true =>
    simp only [Bool.not_true, Bool.false_eq_true, if_false]
    split_ifs with hsmall
    · exact .pass
    · exact .commit _ _ _ (hphase hwanted) (c.fits_freeBlock s.vrbMap (Nat.le_of_not_lt hsmall))
        (hretx hwanted)

theorem newDataUlVisit_step :
    UlVisitStep env target maxNumUe 2 s c (newDataUlVisit env ues target maxNumUe s c) := by
  unfold newDataUlVisit
  by_cases hother : (c.isRetx || c.schedInactive) = true
  · rw [if_pos hother]
    exact .pass
  · rw [if_neg hother]
    rw [Bool.or_eq_true, not_or, Bool.not_eq_true, Bool.not_eq_true] at hother
    dsimp only
    by_cases hsmall : (c.freeBlock s.vrbMap).1 < env.minGrantPrb
    · rw [if_pos hsmall]
      exact .pass
    · rw [if_neg hsmall]
      obtain ⟨hlow, hhigh⟩ := ulOffer_mem env (ues c.ue) c (Nat.le_of_not_lt hsmall)
      split
      next hnone =>
        -- only an empty offer is searched without end
        refine .hang (Nat.eq_zero_of_not_pos fun hpos => ?_)
        have hsome := nrFindNbRbUl_isSome (ues c.ue).transformPrecoding
          (env.nrComputeTbs (ues c.ue) c.schedPusch.tdaInfo c.schedPusch.nrOfLayers
            (env.updateUlUeRQm (ues c.ue) (ulOffer env (ues c.ue) c (c.freeBlock s.vrbMap).1).2))
          c.pendingBytes env.minGrantPrb (Nat.lt_of_lt_of_le hpos hlow)
        rw [hnone] at hsome
        cases hsome
      next found hfound =>
        have hle := nrFindNbRbUl_le hlow hfound
        refine .commit _ _ _ ?_ (c.fits_freeBlock s.vrbMap (hle.trans hhigh)) fun h => ?_
        · simp [UlCandidate.phase, hother.1, hother.2]
        · rw [hother.1] at h
          cases h

/-- What a round of the policy can do. -/
theorem ulPhases_step {visit : UlPolicyState → UlCandidate → Visit UlPolicyState UlCandidate}
    (hi : (ulPhases env ues target maxNumUe)[i]? = some visit) :
    UlVisitStep env target maxNumUe i s c (visit s c) := by
  unfold ulPhases at hi
  match i with
  | 0 =>
    obtain rfl := Option.some.inj hi
    exact exactUlVisit_step (fun h => by simp [UlCandidate.phase, h]) fun _ _ => rfl
  | 1 =>
    obtain rfl := Option.some.inj hi
    refine exactUlVisit_step (fun h => ?_) fun h hretx => ?_
    · rw [Bool.and_eq_true, Bool.not_eq_true'] at h
      simp [UlCandidate.phase, h.1, h.2]
    · rw [hretx] at h
      cases h
  | 2 =>
    obtain rfl := Option.some.inj hi
    exact newDataUlVisit_step
  | _ + 3 => cases hi

theorem commitUlAllocOrStop_of_invalid {rbStart rbSize mcs : ℕ}
    (h : target.nrUlValidateCce s.validations (c.allocate rbStart rbSize mcs) = false) :
    commitUlAllocOrStop target maxNumUe s c rbStart rbSize mcs =
      { state := { s with validations := s.validations + 1 }
        item := c.allocate rbStart rbSize mcs
        stop := false } := by
  simp [commitUlAllocOrStop, h]

theorem commitUlAllocOrStop_of_valid {rbStart rbSize mcs : ℕ}
    (h : target.nrUlValidateCce s.validations (c.allocate rbStart rbSize mcs) = true) :
    commitUlAllocOrStop target maxNumUe s c rbStart rbSize mcs =
      { state := { s with
          vrbMap := Function.update s.vrbMap c.allocBeamIdx
            ((s.vrbMap c.allocBeamIdx).mark c.allocSlbitmap (rbStart + c.bwpStart) rbSize)
          validations := s.validations + 1
          nScheduled := s.nScheduled + 1 }
        item := { c.allocate rbStart rbSize mcs with scheduled := true }
        stop := s.nScheduled + 1 ≥ maxNumUe } := by
  simp only [commitUlAllocOrStop, h, Bool.not_true, Bool.false_eq_true, if_false]
  rfl

/-- A round does not write the frame of its candidate. -/
theorem UlVisitStep.frame {v : Visit UlPolicyState UlCandidate}
    (h : UlVisitStep env target maxNumUe i s c v) : v.item.frame = c.frame := by
  cases h with
  | pass => rfl
  | hang => rfl
  | commit rbStart rbSize mcs =>
    cases hvalid : target.nrUlValidateCce s.validations (c.allocate rbStart rbSize mcs) with
    | false => rw [commitUlAllocOrStop_of_invalid hvalid]; rfl
    | true => rw [commitUlAllocOrStop_of_valid hvalid]; rfl

end Rounds

theorem bestUlTdaFrom_mem (vrbMap : VrbMap) (ulprbbl : ℕ → BitVec 16) (rbLen i : ℕ)
    (tdas : List NrTdaInfo) (best : ℕ × ℕ) :
    (bestUlTdaFrom vrbMap ulprbbl rbLen i tdas best).1 = best.1 ∨
      i ≤ (bestUlTdaFrom vrbMap ulprbbl rbLen i tdas best).1 ∧
        (bestUlTdaFrom vrbMap ulprbbl rbLen i tdas best).1 < i + tdas.length := by
  induction tdas generalizing i best with
  | nil => exact .inl rfl
  | cons tda tdas ih =>
    rw [bestUlTdaFrom, List.length_cons]
    generalize tda.nrOfSymbols * getMaxRbRange vrbMap ulprbbl tda.slbitmap rbLen = score
    split_ifs
    · rcases ih (i + 1) (i, score) with heq | ⟨hlow, hhigh⟩
      · rw [heq]
        exact .inr ⟨le_rfl, by omega⟩
      · exact .inr ⟨by omega, by omega⟩
    · rcases ih (i + 1) best with heq | ⟨hlow, hhigh⟩
      · exact .inl heq
      · exact .inr ⟨by omega, by omega⟩

/-- The best entry is one of those on offer. -/
theorem getBestUlTda_lt (vrbMap : VrbMap) (ulprbbl : ℕ → BitVec 16) (rbLen : ℕ)
    {tdas : List NrTdaInfo} {n : ℕ} (hn : 0 < n) (h : tdas.length ≤ n) :
    getBestUlTda vrbMap ulprbbl rbLen tdas < n := by
  have hmem := bestUlTdaFrom_mem vrbMap ulprbbl rbLen 0 tdas (0, 0)
  rw [getBestUlTda]
  omega

/-- A cell with stable sorts, whose transport blocks have ten bytes in each resource block and in
which no power limits an allocation. -/
def plainUlEnv (ulTda : List NrTdaInfo) : UlEnv where
  harqRoundMax := 4
  disableHarq := false
  minGrantPrb := 5
  ulTda := ulTda
  getUlBitmap _ := 0x3fff
  ulprbbl _ := 0
  slotsPerFrame := 20
  numbSlotsPeriod := 20
  firstUlSlot := none
  ulschMaxFrameInactivity := 10
  updateUlUeRQm _ mcs := (mcs, 2)
  nrComputeTbs _ _ _ _ nbRb := 10 * nbRb
  phTxPower _ _ _ _ _ := 0
  ulMcsSelect _ _ := 9
  pfSort := id
  pfSort_perm _ := .rfl
  pfRbSort := id
  pfRbSort_perm _ := .rfl
  beamSort := List.insertionSort fun c c' => c.allocBeamIdx ≤ c'.allocBeamIdx
  beamSort_perm := List.perm_insertionSort _
  beamSort_pairwise cands := by
    have : Std.Total fun c c' : UlCandidate => c.allocBeamIdx ≤ c'.allocBeamIdx :=
      ⟨fun c c' => Int.le_total c.allocBeamIdx c'.allocBeamIdx⟩
    have : IsTrans UlCandidate fun c c' => c.allocBeamIdx ≤ c'.allocBeamIdx :=
      ⟨fun _ _ _ => Int.le_trans⟩
    exact List.pairwise_insertionSort _ cands

/-- A UE with a large buffer and a bandwidth part of five resource blocks. -/
def plainUlUe (bwpStart ueBeamIndex : ℕ) : NrUeInfo where
  isActive := true
  bwpStart := bwpStart
  bwpSize := 5
  initialUlBwpSize := 5
  dciFormat00 := false
  commonSearchSpace := false
  transformPrecoding := false
  ulRi := 0
  ueBeamIndex := ueBeamIndex
  estimatedUlBuffer := 100000
  transmInterrupt := false
  lastUlFrame := 0
  lastUlSlot := 0
  ph := 0
  pcmax := 0
  schedCtrl := sixteenProcesses
  schedPusch _ := .zero

/-- The target slot `k2` slots behind the first slot, with valid CCEs. -/
def plainUlTarget (k2 : ℕ) : UlTarget where
  frame := 0
  slot := 0
  schedFrame := 0
  schedSlot := k2
  k2 := k2
  nrUlValidateCce _ _ := true

end LlmHric.Mac
