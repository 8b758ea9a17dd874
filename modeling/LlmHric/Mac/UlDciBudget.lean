import LlmHric.Mac.UlPreprocessor
import Mathlib.Tactic.IntervalCases

/-! A call of `nr_ulsch_preprocessor` starts with a budget of DCIs and takes off what each target
slot got. Within a target slot the whole rest of the budget is the limit of every beam's policy
call, so UEs on different beams exceed it together. With UEs on one beam, or with one beam, the
budget holds. -/

namespace LlmHric.Mac

open Sweep SortedRuns

section Budget

variable {cfg : UlCellConfig} {env : UlEnv} {connected : List ℕ} {current ulNext : Fsn}
  {outcomes : ℕ → UlRoundOutcome} {rounds : ℕ} {cell : UlCell} {s' : UlPreproc}

/-- A call gives at most one budget for each beam. -/
theorem nrUlschPreprocessor_dispatched_le_mul
    (h : nrUlschPreprocessor cfg env connected current outcomes rounds ulNext cell = some s') :
    s'.dispatched.length ≤ numBeams cell.beamInfo * ulDciBudget cfg.carrierBandwidth := by
  let I : UlPreproc → Prop := fun s =>
    numBeams s.cell.beamInfo = numBeams cell.beamInfo ∧
      s.dispatched.length + numBeams cell.beamInfo * s.maxDci ≤
        numBeams cell.beamInfo * ulDciBudget cfg.carrierBandwidth
  have hI : I s' := by
    refine ulPreprocRounds_invariant (fun out s more t hmax hs hround => ?_)
      ⟨rfl, (Nat.zero_add _).le⟩ h
    obtain ⟨hbeams, hle⟩ := hs
    rcases ulPreprocRound_cases hround with ⟨hcell, hdone, hrest⟩ |
      ⟨target, cands, done, hfresh, hslot, hcell, hdone, hrest⟩
    · exact ⟨hcell ▸ hbeams, by rwa [hdone, hrest]⟩
    · have hgrants := nrUlSchedule_dispatched_le_numBeams hmax hfresh hslot
      refine ⟨by rw [hcell, (nrUlSchedule_frame hslot).1, hbeams], ?_⟩
      rw [hbeams] at hgrants
      rw [hdone, hrest, List.length_append, Nat.mul_sub]
      rcases Nat.eq_zero_or_pos (numBeams cell.beamInfo) with hzero | hpos
      · rw [hzero] at hgrants hle ⊢
        omega
      · -- what a slot got is paid at least once
        have hpaid : done.dispatched.length ≤ numBeams cell.beamInfo * done.dispatched.length :=
          Nat.le_mul_of_pos_left _ hpos
        omega
  exact (Nat.le_add_right _ _).trans hI.2

/-- A call whose target slots get no more than the limit of one policy call keeps the budget. -/
theorem nrUlschPreprocessor_dispatched_le {J : UlCell → Prop}
    (hstart : J cell)
    (hslot : ∀ target maxNumUe (c : UlCell) vrbMap cands done, 0 < maxNumUe → J c →
      FreshCandidates c.ues connected cands →
      nrUlSchedule env target maxNumUe c vrbMap cands = some done →
      J done.cell ∧ done.dispatched.length ≤ maxNumUe)
    (h : nrUlschPreprocessor cfg env connected current outcomes rounds ulNext cell = some s') :
    s'.dispatched.length ≤ ulDciBudget cfg.carrierBandwidth := by
  let I : UlPreproc → Prop := fun s =>
    J s.cell ∧ s.dispatched.length + s.maxDci ≤ ulDciBudget cfg.carrierBandwidth
  have hI : I s' := by
    refine ulPreprocRounds_invariant (fun out s more t hmax hs hround => ?_)
      ⟨hstart, (Nat.zero_add _).le⟩ h
    obtain ⟨hJ, hle⟩ := hs
    rcases ulPreprocRound_cases hround with ⟨hcell, hdone, hrest⟩ |
      ⟨target, cands, done, hfresh, hrun, hcell, hdone, hrest⟩
    · exact ⟨hcell ▸ hJ, by rwa [hdone, hrest]⟩
    · obtain ⟨hnext, hgrants⟩ := hslot _ _ _ _ _ _ hmax hJ hfresh hrun
      refine ⟨hcell ▸ hnext, ?_⟩
      rw [hdone, hrest, List.length_append]
      omega
  exact (Nat.le_add_right _ _).trans hI.2

theorem nrUlschPreprocessor_le_of_one_beam (hone : numBeams cell.beamInfo ≤ 1)
    (h : nrUlschPreprocessor cfg env connected current outcomes rounds ulNext cell = some s') :
    s'.dispatched.length ≤ ulDciBudget cfg.carrierBandwidth := by
  have hle := nrUlschPreprocessor_dispatched_le_mul h
  exact hle.trans ((Nat.mul_le_mul_right _ hone).trans (Nat.one_mul _).le)

theorem nrUlschPreprocessor_le_of_one_direction (beamIndex : ℕ)
    (hone : ∀ i ∈ connected, (cell.ues i).ueBeamIndex = beamIndex)
    (h : nrUlschPreprocessor cfg env connected current outcomes rounds ulNext cell = some s') :
    s'.dispatched.length ≤ ulDciBudget cfg.carrierBandwidth := by
  refine nrUlschPreprocessor_dispatched_le
    (J := fun c => ∀ i ∈ connected, (c.ues i).ueBeamIndex = beamIndex) hone ?_ h
  intro target maxNumUe c vrbMap cands done hmax hJ hfresh hrun
  refine ⟨fun i hi => ?_, nrUlSchedule_dispatched_le_of_one_direction hmax hfresh hJ hrun⟩
  rw [(nrUlSchedule_frame hrun).2 i]
  exact hJ i hi

end Budget

section Data

variable {env : UlEnv} {ues : ℕ → NrUeInfo} {target : UlTarget} {s : UlPolicyState}
  {c : UlCandidate}

/-- A candidate with new data that is alone on its beam is left to the third phase. -/
theorem nrUlProportionalFair_data {maxNumUe : ℕ} {v : Visit UlPolicyState UlCandidate}
    (hskipped : c.skipped = false) (hretx : c.isRetx = false) (hdata : c.schedInactive = false)
    (hvisit : newDataUlVisit env ues target maxNumUe { s with nScheduled := 0, hung := false } c =
      v)
    (hhung : v.state.hung = false) :
    nrUlProportionalFair env ues target maxNumUe s [c] = some (v.state, [v.item]) := by
  have horder : env.pfRbSort ([c].filter fun c => !c.skipped) = [c] := by
    rw [List.filter_cons_of_pos (by simp [hskipped])]
    exact List.perm_singleton.mp (env.pfRbSort_perm [c])
  have hdropped : [c].filter (fun c => c.skipped) = [] := by
    rw [List.filter_cons_of_neg (by simp [hskipped])]
    rfl
  have hexact : ∀ (wanted : UlCandidate → Bool) (neededRbs : UlCandidate → ℕ) (t : UlPolicyState),
      wanted c = false → exactUlVisit target maxNumUe wanted neededRbs t c = .pass t c := by
    intro wanted neededRbs t hwanted
    rw [exactUlVisit, hwanted]
    exact if_pos rfl
  have hphases : (runAll (ulPhases env ues target maxNumUe)
        { s with nScheduled := 0, hung := false } [c]).state = v.state ∧
      (runAll (ulPhases env ues target maxNumUe)
        { s with nScheduled := 0, hung := false } [c]).items = [v.item] := by
    simp only [ulPhases, runAll, run_singleton, Visit.pass, Bool.false_eq_true, if_false,
      hexact (fun c => c.isRetx) _ _ hretx,
      hexact (fun c => !c.isRetx && c.schedInactive) _ _ (by simp [hdata]), hvisit]
    split_ifs <;> exact ⟨rfl, rfl⟩
  unfold nrUlProportionalFair
  rw [horder, hdropped]
  dsimp only
  rw [hphases.1, hphases.2, hhung, if_neg Bool.false_ne_true]
  rfl

/-- New data is given the entry of the table when only one is on offer. -/
theorem ulTdaSelect_of_new {vrbMap : ℤ → VrbMap} {window : ℕ × ℕ} {tda : NrTdaInfo}
    (hskipped : c.skipped = false) (hretx : c.isRetx = false) (hone : window.2 = 1)
    (hget : env.ulTda[window.1]? = some tda) (hlt : window.1 < 16) :
    ulTdaSelect env ues vrbMap window c = some (c.withTda window.1 tda) := by
  have hbest := getBestUlTda_lt (vrbMap c.allocBeamIdx) env.ulprbbl c.bwpSize Nat.one_pos
    ((List.length_take_le window.2 (env.ulTda.drop window.1)).trans hone.le)
  have hindex : window.1 + getBestUlTda (vrbMap c.allocBeamIdx) env.ulprbbl c.bwpSize
      ((env.ulTda.drop window.1).take window.2) = window.1 := by
    omega
  unfold ulTdaSelect
  dsimp only
  rw [if_neg (by rw [hskipped]; exact Bool.false_ne_true),
    if_neg (by rw [hretx]; exact Bool.false_ne_true), hindex, hget]
  exact if_pos hlt

end Data

/-! ### Two directions -/

/-- One time-domain allocation for each of eight slots. -/
def eightUlTdas : List NrTdaInfo := (List.range 8).map fun k => ⟨0, 13, k + 1⟩

/-- A frequency-division cell of a bandwidth. -/
def fddConfig (bw : ℕ) : UlCellConfig where
  carrierBandwidth := bw
  koffset := 0
  minRxTxTime := 1
  isUlSlot _ := true
  isDlSlot _ := true
  numDlSlots := 0

/-- A table whose first two beams are set to two directions. -/
def twoDirections (beams d d' : ℕ) : NrBeamInfo where
  beamsPerPeriod := beams
  beamDuration := 1
  beamAllocationSize := 1
  beamAllocation i _ := if i = 0 then some d else if i = 1 then some d' else none

/-- The HARQ processes after small grants in the first slots. -/
def wornCtrl : ℕ → NrUeUlSchedCtrl
  | 0 => sixteenProcesses
  | k + 1 => (postProcessUlsch 4 false ⟨none, UInt16.ofNat (k + 1), 50⟩ (wornCtrl k)).getD .zero

/-- A UE with data that was last scheduled in a slot. -/
def backlogUe (direction : ℕ) (ctrl : NrUeUlSchedCtrl) (last : Fsn) (sched : ℕ → SchedPusch) :
    NrUeInfo :=
  { plainUlUe 0 direction with
    schedCtrl := ctrl, lastUlFrame := last.f, lastUlSlot := last.s, schedPusch := sched }

/-- The candidate of a UE with data. -/
def backlogCandidate (i direction pending : ℕ) : UlCandidate :=
  { (plainUlUe 0 direction).candidate i with pendingBytes := pending }

/-- The candidate of a UE with data that has a beam. -/
def beamedCandidate (i direction pending : ℕ) (beam : ℤ) : UlCandidate :=
  { backlogCandidate i direction pending with
    schedPusch := { SchedPusch.zero with nrOfLayers := 1 }
    allocBeamIdx := beam }

/-- A UE with data that got a number of grants. -/
def BacklogUe (direction k : ℕ) (ue : NrUeInfo) : Prop :=
  ∃ last sched, ue = backlogUe direction (wornCtrl k) last sched

theorem wornCtrl_spec {k : ℕ} (hk : k < 8) :
    (wornCtrl k).retransUlHarq.head = none ∧ (wornCtrl k).availableUlHarq.head = some k ∧
      (wornCtrl k).schedUlBytes = 50 * (k : ℤ) ∧
      postProcessUlsch 4 false ⟨none, UInt16.ofNat (k + 1), 50⟩ (wornCtrl k) =
        some (wornCtrl (k + 1)) := by
  interval_cases k <;> exact ⟨rfl, rfl, rfl, rfl⟩

section Scenario

variable {target : UlTarget} {beams d d' i j k : ℕ} {ues : ℕ → NrUeInfo} {ue : NrUeInfo}

/-- A UE with data is a candidate for what is not scheduled yet. -/
theorem BacklogUe.collect (h : BacklogUe d k ue) (hk : k < 8) :
    collectUlCandidate (plainUlEnv eightUlTdas) target i ue =
      some (backlogCandidate i d (100000 - 50 * k)) := by
  obtain ⟨last, sched, rfl⟩ := h
  obtain ⟨hretrans, havailable, hbytes, -⟩ := wornCtrl_spec hk
  have hrest : max 0 (100000 - (wornCtrl k).schedUlBytes) = ((100000 - 50 * k : ℕ) : ℤ) := by
    omega
  have hsome : (((100000 - 50 * k : ℕ) : ℤ) == 0) = false := beq_eq_false_iff_ne.mpr (by omega)
  unfold collectUlCandidate backlogUe plainUlUe
  dsimp only
  rw [hretrans, havailable, hrest, hsome]
  rfl

/-- The first two beams of the table are found for their directions. -/
theorem beamAllocation_twoDirections (hbeams : 2 ≤ beams) (hdir : d ≠ d') (p : ℕ) :
    beamAllocationProcedure (twoDirections beams d d') p d =
        (twoDirections beams d d', ⟨false, some 0⟩) ∧
      beamAllocationProcedure (twoDirections beams d d') p d' =
        (twoDirections beams d d', ⟨false, some 1⟩) := by
  obtain ⟨n, rfl⟩ := Nat.exists_eq_add_of_le' hbeams
  constructor
  · simp [beamAllocationProcedure, twoDirections, beamAllocationFrom, NrBeamInfo.column]
  · simp [beamAllocationProcedure, twoDirections, beamAllocationFrom, NrBeamInfo.column, hdir]

/-- The beam selection leaves the table and takes the beam of the direction. -/
theorem ulBeamSelect_twoDirections (hbeams : 2 ≤ beams) (hdir : d ≠ d') {c : UlCandidate} :
    (c.beamIndex = d → ulBeamSelect 20 target (some (twoDirections beams d d')) c =
      (some (twoDirections beams d d'), { c with
        allocBeamIdx := 0, allocDciBeamNew := false, allocSchedBeamNew := false })) ∧
    (c.beamIndex = d' → ulBeamSelect 20 target (some (twoDirections beams d d')) c =
      (some (twoDirections beams d d'), { c with
        allocBeamIdx := 1, allocDciBeamNew := false, allocSchedBeamNew := false })) := by
  have hfirst := fun p => (beamAllocation_twoDirections hbeams hdir p).1
  have hsecond := fun p => (beamAllocation_twoDirections hbeams hdir p).2
  constructor
  · intro h
    simp only [ulBeamSelect, ulBeamAllocation, h, hfirst]
    rfl
  · intro h
    simp only [ulBeamSelect, ulBeamAllocation, h, hsecond]
    rfl

end Scenario

/-! ### A target slot with UEs that have data -/

/-- A UE with data: its direction, its beam, the bytes it waits to send, and whether the beam is
free in the target slot. -/
structure UeOnBeam where
  ue : ℕ
  direction : ℕ
  beam : ℤ
  pending : ℕ
  free : Bool

namespace UeOnBeam

def map (x : UeOnBeam) : VrbMap := fun _ => if x.free then 0 else 0x3fff

/-- The candidate before the policy call, with the entry `k` of the table. -/
def ready (k : ℕ) (x : UeOnBeam) : UlCandidate :=
  { (beamedCandidate x.ue x.direction x.pending x.beam).withTda k ⟨0, 13, k + 1⟩ with
    schedPusch := { SchedPusch.zero with
      nrOfLayers := 1
      timeDomainAllocation := k
      tdaInfo := ⟨0, 13, k + 1⟩
      mcs := 9 } }

/-- The candidate after the policy call. -/
def after (k : ℕ) (x : UeOnBeam) : UlCandidate :=
  if x.free then { (x.ready k).allocate 0 5 9 with scheduled := true } else x.ready k

/-- The UE has data, and its next grant can be dispatched. -/
def HasData (ues : ℕ → NrUeInfo) (x : UeOnBeam) : Prop :=
  ∃ ctrl last sched, ues x.ue = backlogUe x.direction ctrl last sched

end UeOnBeam

section BacklogSlot

variable {target : UlTarget} {k : ℕ} {ues : ℕ → NrUeInfo} {xs : List UeOnBeam}

theorem freeBlock_ready (x : UeOnBeam) {vrbMap : ℤ → VrbMap} (hmap : vrbMap x.beam = x.map) :
    (x.ready k).freeBlock vrbMap = if x.free then (5, 0) else (0, 0) := by
  have hbeam : vrbMap (x.ready k).allocBeamIdx = x.map := hmap
  have hfree : findLargestFreeBlock (fun _ => 0) (slToBitmap 0 13) 0 5 = (5, 0) := by decide
  have hfull : findLargestFreeBlock (fun _ => 0x3fff) (slToBitmap 0 13) 0 5 = (0, 0) := by decide
  unfold UlCandidate.freeBlock
  rw [hbeam]
  unfold UeOnBeam.map
  cases x.free with
  | false => exact hfull
  | true => exact hfree

/-- The third phase serves a UE whose beam is free. -/
theorem newDataUlVisit_ready (target : UlTarget) (maxNumUe k : ℕ) (s : UlPolicyState) {x : UeOnBeam}
    (hue : x.HasData ues) (hmap : s.vrbMap x.beam = x.map) :
    newDataUlVisit (plainUlEnv eightUlTdas) ues target maxNumUe s (x.ready k) =
      if x.free then commitUlAllocOrStop target maxNumUe s (x.ready k) 0 5 9
      else .pass s (x.ready k) := by
  obtain ⟨ctrl, last, sched, hue⟩ := hue
  have hue : ues (x.ready k).ue = backlogUe x.direction ctrl last sched := hue
  have hnew : ¬ ((x.ready k).isRetx || (x.ready k).schedInactive) = true := Bool.false_ne_true
  have hblock := freeBlock_ready (k := k) x hmap
  unfold newDataUlVisit
  rw [if_neg hnew]
  dsimp only
  rw [hblock, hue]
  cases x.free with
  | false => rfl
  | true =>
    -- five resource blocks are both the least and the most
    have hsize : (nrFindNbRb (fun nbRb => 10 * nbRb) x.pending 5 5).2.2 = 5 := by
      have hmem := nrFindNbRb_mem (fun nbRb => 10 * nbRb) x.pending (le_refl 5)
      omega
    exact congrArg (commitUlAllocOrStop target maxNumUe s (x.ready k) 0 · 9) hsize

theorem nrUlProportionalFair_ready (maxNumUe k : ℕ) {s : UlPolicyState} {x : UeOnBeam}
    (hue : x.HasData ues) (hmap : s.vrbMap x.beam = x.map)
    (hcce : ∀ n c, target.nrUlValidateCce n c = true) :
    ∃ s', nrUlProportionalFair (plainUlEnv eightUlTdas) ues target maxNumUe s [x.ready k] =
        some (s', [x.after k]) ∧ ∀ b ≠ x.beam, s'.vrbMap b = s.vrbMap b := by
  have hvisit := newDataUlVisit_ready target maxNumUe k { s with nScheduled := 0, hung := false }
    hue hmap
  unfold UeOnBeam.after
  cases hfree : x.free with
  | false =>
    rw [hfree] at hvisit
    exact ⟨_, nrUlProportionalFair_data rfl rfl rfl hvisit rfl, fun b _ => rfl⟩
  | true =>
    rw [hfree, if_pos rfl, commitUlAllocOrStop_of_valid (hcce _ _)] at hvisit
    refine ⟨_, nrUlProportionalFair_data rfl rfl rfl hvisit rfl, fun b hb => ?_⟩
    exact Function.update_of_ne hb ..

/-- UEs on different beams get a grant on every beam that is free, whatever the limit is. -/
theorem allocUlBeams_ready (ues : ℕ → NrUeInfo) (maxNumUe k : ℕ) {s : UlPolicyState}
    (hbeams : (xs.map UeOnBeam.beam).Nodup) (hpos : ∀ x ∈ xs, 0 ≤ x.beam)
    (hmap : ∀ x ∈ xs, s.vrbMap x.beam = x.map) (hdata : ∀ x ∈ xs, x.HasData ues)
    (hcce : ∀ n c, target.nrUlValidateCce n c = true) :
    ∃ s', allocUlBeams (plainUlEnv eightUlTdas) ues target maxNumUe s
      (xs.map fun x => [x.ready k]) = some (s', xs.map (UeOnBeam.after k)) := by
  induction xs generalizing s with
  | nil => exact ⟨s, rfl⟩
  | cons x xs ih =>
    obtain ⟨hx, hbeams⟩ := List.nodup_cons.mp hbeams
    obtain ⟨t, hcall, hothers⟩ := nrUlProportionalFair_ready maxNumUe k
      (hdata x List.mem_cons_self) (hmap x List.mem_cons_self) hcce
    have hbusy : ¬ ([x.ready k].all fun c => c.allocBeamIdx < 0) = true := by
      have := hpos x List.mem_cons_self
      simpa [UeOnBeam.ready, UlCandidate.withTda, beamedCandidate] using this
    obtain ⟨s', hrest⟩ := ih (s := t) hbeams (fun y hy => hpos y (List.mem_cons_of_mem x hy))
      (fun y hy => by
        have hne : y.beam ≠ x.beam := fun heq => hx (heq ▸ List.mem_map_of_mem hy)
        exact (hothers y.beam hne).trans (hmap y (List.mem_cons_of_mem x hy)))
      fun y hy => hdata y (List.mem_cons_of_mem x hy)
    refine ⟨s', ?_⟩
    rw [List.map_cons, allocUlBeams, if_neg hbusy, hcall]
    dsimp only [Option.bind_eq_bind, Option.bind_some]
    rw [hrest]
    rfl

/-- The PUSCH of a grant. -/
def backlogPusch (target : UlTarget) (k : ℕ) : SchedPusch :=
  ⟨target.schedFrame, UInt16.ofNat target.schedSlot, 5, 0, 9, 9, 2, 50, none, 1, k,
    ⟨0, 13, k + 1⟩, 0, 5⟩

/-- A target slot for UEs with data: entry `k` of the table reaches it, all CCEs are valid, and the
UEs have different beams. -/
structure BacklogSlot (target : UlTarget) (k : ℕ) (ues : ℕ → NrUeInfo) (vrbMap : ℤ → VrbMap)
    (xs : List UeOnBeam) : Prop where
  lt : k < 8
  k2 : target.k2 = k + 1
  cce : ∀ n c, target.nrUlValidateCce n c = true
  ne_nil : xs ≠ []
  groups : ulBeamGroups ((plainUlEnv eightUlTdas).beamSort (xs.map (UeOnBeam.ready k))) =
    xs.map fun x => [x.ready k]
  distinct : (xs.map UeOnBeam.ue).Nodup
  apart : (xs.map UeOnBeam.beam).Nodup
  nonneg : ∀ x ∈ xs, 0 ≤ x.beam
  map : ∀ x ∈ xs, vrbMap x.beam = x.map
  data : ∀ x ∈ xs, x.HasData ues
  post : ∀ x ∈ xs, ∃ ue', (ues x.ue).postProcess (plainUlEnv eightUlTdas) (backlogPusch target k) =
    some ue'

/-- Exactly the UEs whose beams are free got a grant. -/
structure Granted (target : UlTarget) (k : ℕ) (xs : List UeOnBeam) (ues ues' : ℕ → NrUeInfo)
    (dispatched : List (UlCandidate × SchedPusch)) : Prop where
  length : dispatched.length = xs.countP UeOnBeam.free
  others : ∀ u, (∀ x ∈ xs, x.free = true → x.ue ≠ u) → ues' u = ues u
  served : ∀ x ∈ xs, x.free = true → (ues x.ue).postProcess (plainUlEnv eightUlTdas)
    (backlogPusch target k) = some (ues' x.ue)

/-- Exactly the UEs whose beams are free are dispatched. -/
theorem dispatchUl_after (vrbMap : ℤ → VrbMap) (hues : (xs.map UeOnBeam.ue).Nodup)
    (hdata : ∀ x ∈ xs, x.HasData ues)
    (hpost : ∀ x ∈ xs, ∃ ue', (ues x.ue).postProcess (plainUlEnv eightUlTdas)
      (backlogPusch target k) = some ue') :
    ∃ done, dispatchUl (plainUlEnv eightUlTdas) target ues vrbMap
        (xs.map (UeOnBeam.after k)) = some done ∧ Granted target k xs ues done.1 done.2.2 := by
  induction xs generalizing ues vrbMap with
  | nil => exact ⟨_, rfl, rfl, fun _ _ => rfl, fun x hx => absurd hx List.not_mem_nil⟩
  | cons x xs ih =>
    obtain ⟨hx, hues⟩ := List.nodup_cons.mp hues
    have hne : ∀ y ∈ xs, y.ue ≠ x.ue := fun y hy heq => hx (heq ▸ List.mem_map_of_mem hy)
    rw [List.map_cons, dispatchUl]
    cases hfree : x.free with
    | false =>
      -- the candidate is as it was before the policy, so nothing is dispatched
      obtain ⟨done, hdone, hlen, hothers, hserved⟩ := ih vrbMap hues
        (fun y hy => hdata y (List.mem_cons_of_mem x hy))
        fun y hy => hpost y (List.mem_cons_of_mem x hy)
      have hafter : x.after k = x.ready k := by
        rw [UeOnBeam.after, hfree]
        exact if_neg Bool.false_ne_true
      refine ⟨done, ?_, ?_, fun u hu => hothers u fun y hy => hu y (List.mem_cons_of_mem x hy),
        fun y hy hyfree => ?_⟩
      · rw [hafter]
        exact (if_pos rfl).trans hdone
      · rw [hlen, List.countP_cons_of_neg (by simp [hfree])]
      · rcases List.mem_cons.mp hy with rfl | hy
        · rw [hfree] at hyfree
          cases hyfree
        · exact hserved y hy hyfree
    | true =>
      obtain ⟨ctrl, last, sched, hue⟩ := hdata x List.mem_cons_self
      obtain ⟨ue', hue'⟩ := hpost x List.mem_cons_self
      have hafter : x.after k = { (x.ready k).allocate 0 5 9 with scheduled := true } := by
        rw [UeOnBeam.after, hfree]
        exact if_pos rfl
      have hpusch : ulPusch (plainUlEnv eightUlTdas) target (ues x.ue) (x.after k) =
          some (backlogPusch target k) := by
        rw [hafter, hue]
        rfl
      -- the grant changes this UE and the map of its beam, and no other UE of the list is this one
      obtain ⟨done, hdone, hlen, hothers, hserved⟩ := @ih (Function.update ues x.ue ue')
        (Function.update vrbMap x.beam ((vrbMap x.beam).mark
          (backlogPusch target k).tdaInfo.slbitmap
          ((backlogPusch target k).rbStart + (backlogPusch target k).bwpStart)
          (backlogPusch target k).rbSize)) hues
        (fun y hy => by
          have hrest := hdata y (List.mem_cons_of_mem x hy)
          rwa [UeOnBeam.HasData, Function.update_of_ne (hne y hy)])
        (fun y hy => by
          rw [Function.update_of_ne (hne y hy)]
          exact hpost y (List.mem_cons_of_mem x hy))
      refine ⟨(done.1, done.2.1, (x.after k, backlogPusch target k) :: done.2.2), ?_, ?_, ?_, ?_⟩
      · have hscheduled : ¬ (!(x.after k).scheduled) = true := by
          rw [hafter]
          exact Bool.false_ne_true
        have hbeam : (x.after k).allocBeamIdx = x.beam := by
          rw [hafter]
          rfl
        have hone : (x.after k).ue = x.ue := by
          rw [hafter]
          rfl
        rw [if_neg hscheduled, hone, hpusch, hbeam]
        change ((ues x.ue).postProcess (plainUlEnv eightUlTdas) (backlogPusch target k)).bind _ = _
        rw [hue', Option.bind_some]
        exact Option.bind_eq_some_iff.mpr ⟨done, hdone, rfl⟩
      · rw [List.length_cons, hlen, List.countP_cons_of_pos hfree]
      · intro u hu
        have hnot : u ≠ x.ue := (hu x List.mem_cons_self hfree).symm
        exact (hothers u fun y hy => hu y (List.mem_cons_of_mem x hy)).trans
          (Function.update_of_ne hnot ..)
      · intro y hy hyfree
        rcases List.mem_cons.mp hy with rfl | hy
        · rw [hue', hothers y.ue fun z hz _ => hne z hz, Function.update_self]
        · have hpost_y := hserved y hy hyfree
          rwa [Function.update_of_ne (hne y hy)] at hpost_y

/-- No beam was claimed, so none is given back. -/
theorem releaseUlBeams_after (n : ℕ) (info : Option NrBeamInfo) :
    releaseUlBeams n target info (xs.map (UeOnBeam.after k)) = info := by
  have hreset : ∀ frame slot beamIndex, ulResetBeamStatus n frame slot info beamIndex false =
      info := by
    intro frame slot beamIndex
    cases info with
    | none => rfl
    | some info => rfl
  induction xs with
  | nil => rfl
  | cons x xs ih =>
    rw [List.map_cons, releaseUlBeams, UeOnBeam.after]
    cases x.free with
    | false =>
      refine (if_pos rfl).trans ?_
      change releaseUlBeams n target (ulResetBeamStatus n _ _ (ulResetBeamStatus n _ _ info _ false)
        _ false) _ = _
      rw [hreset, hreset]
      exact ih
    | true => exact ih

theorem mapM_eq_some_map {α β : Type*} {f : α → Option β} {g : α → β} {l : List α}
    (h : ∀ a ∈ l, f a = some (g a)) : l.mapM f = some (l.map g) := by
  induction l with
  | nil => rfl
  | cons a l ih =>
    rw [List.mapM_cons, h a List.mem_cons_self, ih fun b hb => h b (List.mem_cons_of_mem a hb)]
    rfl

theorem getNumUlTda_eightUlTdas (hk : k < 8) :
    getNumUlTda eightUlTdas 0x3fff (k + 1) = some (k, 1) := by
  interval_cases k <;> decide

theorem getElem?_eightUlTdas (hk : k < 8) : eightUlTdas[k]? = some ⟨0, 13, k + 1⟩ := by
  interval_cases k <;> rfl

/-- UEs that have different beams get a grant on every beam that is free in the target slot. -/
theorem ulAllocateAndDispatch_ready (maxNumUe : ℕ) {cell : UlCell} {vrbMap : ℤ → VrbMap}
    (h : BacklogSlot target k cell.ues vrbMap xs) :
    ∃ done, ulAllocateAndDispatch (plainUlEnv eightUlTdas) target maxNumUe cell vrbMap
        (xs.map fun x => beamedCandidate x.ue x.direction x.pending x.beam) = some done ∧
      done.cell.beamInfo = cell.beamInfo ∧
      Granted target k xs cell.ues done.cell.ues done.dispatched := by
  have htda : nrUlTdaSelectDefault (plainUlEnv eightUlTdas) cell.ues target vrbMap
      (xs.map fun x => beamedCandidate x.ue x.direction x.pending x.beam) =
        some (xs.length, xs.map fun x =>
          (beamedCandidate x.ue x.direction x.pending x.beam).withTda k ⟨0, 13, k + 1⟩) := by
    have hwindow : getNumUlTda (plainUlEnv eightUlTdas).ulTda
        ((plainUlEnv eightUlTdas).getUlBitmap target.schedSlot) target.k2 = some (k, 1) := by
      rw [h.k2]
      exact getNumUlTda_eightUlTdas h.lt
    have hselect : (xs.map fun x => beamedCandidate x.ue x.direction x.pending x.beam).mapM
        (ulTdaSelect (plainUlEnv eightUlTdas) cell.ues vrbMap (k, 1)) =
          some ((xs.map fun x => beamedCandidate x.ue x.direction x.pending x.beam).map
            fun c => c.withTda k ⟨0, 13, k + 1⟩) := by
      refine mapM_eq_some_map fun c hc => ?_
      obtain ⟨x, -, rfl⟩ := List.mem_map.mp hc
      exact ulTdaSelect_of_new rfl rfl rfl (getElem?_eightUlTdas h.lt) (h.lt.trans (by decide))
    refine Option.bind_eq_some_iff.mpr ⟨_, hwindow, (if_neg Nat.one_ne_zero).trans ?_⟩
    refine Option.bind_eq_some_iff.mpr ⟨_, hselect, ?_⟩
    rw [List.map_map, List.countP_map]
    exact congrArg some (Prod.ext (List.countP_eq_length.mpr fun _ _ => rfl) rfl)
  have hmcs : nrUlMcsSelectDefault (plainUlEnv eightUlTdas) cell.ues (xs.map fun x =>
      (beamedCandidate x.ue x.direction x.pending x.beam).withTda k ⟨0, 13, k + 1⟩) =
        xs.map (UeOnBeam.ready k) := by
    rw [nrUlMcsSelectDefault, List.map_map]
    rfl
  obtain ⟨s', halloc⟩ := allocUlBeams_ready cell.ues maxNumUe k (s := ⟨vrbMap, 0, 0, false⟩)
    h.apart h.nonneg h.map h.data h.cce
  obtain ⟨done, hdone, hgranted⟩ := dispatchUl_after s'.vrbMap h.distinct h.data h.post
  refine ⟨⟨⟨done.1, cell.beamInfo⟩, done.2.1, done.2.2⟩, ?_, rfl, hgranted⟩
  refine Option.bind_eq_some_iff.mpr ⟨_, htda, ?_⟩
  refine (if_neg fun hzero => h.ne_nil (List.eq_nil_of_length_eq_zero hzero)).trans ?_
  dsimp only
  rw [hmcs, h.groups]
  refine Option.bind_eq_some_iff.mpr ⟨_, halloc, ?_⟩
  refine Option.bind_eq_some_iff.mpr ⟨_, hdone, ?_⟩
  rw [releaseUlBeams_after]

theorem ulBeamSelectLoop_beamed (target : UlTarget) (info : Option NrBeamInfo)
    (f : UeOnBeam → UlCandidate) (h : ∀ x ∈ xs, ulBeamSelect 20 target info (f x) =
      (info, beamedCandidate x.ue x.direction x.pending x.beam)) :
    ulBeamSelectLoop 20 target info (xs.map f) =
      (info, xs.map fun x => beamedCandidate x.ue x.direction x.pending x.beam) := by
  induction xs with
  | nil => rfl
  | cons x xs ih =>
    rw [List.map_cons, ulBeamSelectLoop, h x List.mem_cons_self]
    dsimp only
    rw [ih fun y hy => h y (List.mem_cons_of_mem x hy)]
    rfl

/-- UEs whose directions have different beams already get a grant on every beam that is free. -/
theorem nrUlSchedule_backlog (target : UlTarget) (xs : List UeOnBeam) (maxNumUe : ℕ)
    (cell : UlCell) (vrbMap : ℤ → VrbMap)
    (h : BacklogSlot target k cell.ues vrbMap xs)
    (hselect : ∀ x ∈ xs, ∀ c : UlCandidate, c.beamIndex = x.direction →
      ulBeamSelect 20 target cell.beamInfo c = (cell.beamInfo, { c with
        allocBeamIdx := x.beam, allocDciBeamNew := false, allocSchedBeamNew := false })) :
    ∃ done, nrUlSchedule (plainUlEnv eightUlTdas) target maxNumUe cell vrbMap
        (xs.map fun x => backlogCandidate x.ue x.direction x.pending) = some done ∧
      done.cell.beamInfo = cell.beamInfo ∧
      Granted target k xs cell.ues done.cell.ues done.dispatched := by
  have hlayers : nrUlRiTpmiSelectDefault cell.ues
      (xs.map fun x => backlogCandidate x.ue x.direction x.pending) =
        xs.map fun x => { backlogCandidate x.ue x.direction x.pending with
          schedPusch := { SchedPusch.zero with nrOfLayers := 1 } } := by
    rw [nrUlRiTpmiSelectDefault, List.map_map]
    refine List.map_congr_left fun x hx => ?_
    obtain ⟨ctrl, last, sched, hue⟩ := h.data x hx
    have hue' : cell.ues (backlogCandidate x.ue x.direction x.pending).ue =
        backlogUe x.direction ctrl last sched := hue
    dsimp only [Function.comp]
    rw [hue']
    rfl
  have hloop := ulBeamSelectLoop_beamed target cell.beamInfo
    (fun x : UeOnBeam => { backlogCandidate x.ue x.direction x.pending with
      schedPusch := { SchedPusch.zero with nrOfLayers := 1 } }) fun x hx => by
        rw [hselect x hx _ rfl]
        rfl
  obtain ⟨done, hdone, hrest⟩ := ulAllocateAndDispatch_ready maxNumUe h
  refine ⟨done, ?_, hrest⟩
  have hlength : xs.length ≠ 0 := fun hzero => h.ne_nil (List.eq_nil_of_length_eq_zero hzero)
  have hbeamed : nrUlBeamSelectDefault (plainUlEnv eightUlTdas) target cell.beamInfo
      (nrUlRiTpmiSelectDefault cell.ues
        (xs.map fun x => backlogCandidate x.ue x.direction x.pending)) =
      (cell.beamInfo, xs.map fun x => beamedCandidate x.ue x.direction x.pending x.beam) := by
    rw [hlayers]
    exact hloop
  have hcount : (xs.map fun x => beamedCandidate x.ue x.direction x.pending x.beam).countP
      (fun c => !c.skipped) ≠ 0 := by
    rw [List.countP_map]
    exact fun h => hlength ((List.countP_eq_length.mpr fun _ _ => rfl).symm.trans h)
  unfold nrUlSchedule
  rw [hbeamed]
  dsimp only
  rw [if_neg (by rwa [List.length_map]), if_neg hcount, hdone]

end BacklogSlot

/-! ### A call that exceeds its budget -/

/-- Two UEs have data, all others are not active. -/
def backlogCell (beams i j d d' : ℕ) (direction : ℕ → ℕ) : UlCell where
  ues u := { backlogUe (direction u) sixteenProcesses ⟨0, 0⟩ (fun _ => .zero) with
    isActive := decide (u = i ∨ u = j) }
  beamInfo := some (twoDirections beams d d')

/-- Every CCE is valid. The second beam is taken in all target slots but the last. -/
def backlogOutcome (budget r : ℕ) : UlRoundOutcome where
  nrUlValidateCce _ _ := true
  vrbMap b _ := if b = 1 ∧ r + 1 ≠ budget then 0x3fff else 0

/-- The state of the call before round `r`. -/
structure BeforeRound (beams i j d d' budget r : ℕ) (s : UlPreproc) : Prop where
  next : s.next = ⟨0, r + 1⟩
  maxDci : s.maxDci + r = budget
  dispatched : s.dispatched.length = r
  beamInfo : s.cell.beamInfo = some (twoDirections beams d d')
  first : BacklogUe d r (s.cell.ues i)
  second : BacklogUe d' 0 (s.cell.ues j)
  others : ∀ u, u ≠ i → u ≠ j → (s.cell.ues u).isActive = false

section Call

variable {beams i j d d' budget bw r : ℕ} {connected : List ℕ} {s : UlPreproc}

/-- The candidates of two UEs of the list, when no other UE of it is a candidate. -/
theorem filterMap_two {α β : Type*} {f : α → Option β} {i j : α} {l₁ l₂ l₃ : List α}
    (h : (l₁ ++ i :: (l₂ ++ j :: l₃)).Nodup) (hothers : ∀ u, u ≠ i → u ≠ j → f u = none) :
    (l₁ ++ i :: (l₂ ++ j :: l₃)).filterMap f = (f i).toList ++ (f j).toList := by
  have hnil : ∀ l : List α, (∀ u ∈ l, u ≠ i ∧ u ≠ j) → l.filterMap f = [] := by
    intro l hl
    refine List.filterMap_eq_nil_iff.mpr fun u hu => ?_
    exact hothers u (hl u hu).1 (hl u hu).2
  have hcons : ∀ (u : α) (l : List α), (u :: l).filterMap f = (f u).toList ++ l.filterMap f := by
    intro u l
    rw [List.filterMap_cons]
    cases f u with
    | none => rfl
    | some b => rfl
  simp only [List.nodup_append, List.nodup_cons, List.mem_append, List.mem_cons] at h
  rw [List.filterMap_append, hcons, List.filterMap_append, hcons, hnil l₁, hnil l₂, hnil l₃]
  · simp
  all_goals
    intro u hu
    constructor
    · rintro rfl
      grind
    · rintro rfl
      grind

/-- A round of a frequency-division cell looks at the next slot. -/
theorem ulPreprocRound_fdd {out : UlRoundOutcome} (hr : r < 8) (hnext : s.next = ⟨0, r + 1⟩) :
    ulPreprocRound (fddConfig bw) (plainUlEnv eightUlTdas) connected ⟨0, 0⟩ out s =
      ulPreprocSlot (fddConfig bw) (plainUlEnv eightUlTdas) connected ⟨0, 0⟩ out (r + 1) s := by
  have hmax : fsnGetMax 20 ⟨0, r + 1⟩ (fsnAddDelta 20 ⟨0, 0⟩ 1) = ⟨0, r + 1⟩ := by
    interval_cases r <;> decide
  have hdiff : fsnGetDiff 20 ⟨0, r + 1⟩ ⟨0, 0⟩ - 0 = (r : ℤ) + 1 := by
    interval_cases r <;> decide
  obtain ⟨cell, next, maxDci, dispatched⟩ := s
  obtain rfl : next = ⟨0, r + 1⟩ := hnext
  unfold ulPreprocRound
  change (nextUlSlot 20 (fun _ => true) 20
    (fsnGetMax 20 ⟨0, r + 1⟩ (fsnAddDelta 20 ⟨0, 0⟩ 1))).bind _ = _
  rw [hmax]
  change (if fsnGetDiff 20 ⟨0, r + 1⟩ ⟨0, 0⟩ - 0 ≤ 0 then none else
    ulPreprocSlot (fddConfig bw) (plainUlEnv eightUlTdas) connected ⟨0, 0⟩ out
      (fsnGetDiff 20 ⟨0, r + 1⟩ ⟨0, 0⟩ - 0).toNat _) = _
  rw [hdiff, if_neg (by omega)]
  rfl

/-- A target slot with candidates that all get a grant. -/
theorem ulPreprocSlot_of (bw : ℕ) {out : UlRoundOutcome} {done : UlScheduled}
    {cands : List UlCandidate} (hr : r < 8)
    (hcands : (collectUlCandidates (plainUlEnv eightUlTdas) (out.target 20 0 ⟨0, 0⟩ (r + 1))
      s.cell.ues connected).take maxMobilesPerGnb = cands) (hlen : cands.length ≠ 0)
    (hdone : nrUlSchedule (plainUlEnv eightUlTdas) (out.target 20 0 ⟨0, 0⟩ (r + 1)) s.maxDci s.cell
      out.vrbMap cands = some done) (hgrants : done.dispatched.length ≠ 0) :
    ulPreprocSlot (fddConfig bw) (plainUlEnv eightUlTdas) connected ⟨0, 0⟩ out (r + 1) s =
      some (true, {
        cell := done.cell
        next := fsnAddDelta 20 s.next 1
        maxDci := s.maxDci - done.dispatched.length
        dispatched := s.dispatched ++ done.dispatched }) := by
  subst hcands
  refine Option.bind_eq_some_iff.mpr ⟨(r, 1), getNumUlTda_eightUlTdas hr,
    (if_neg Nat.one_ne_zero).trans ((if_neg fun h => hlen h.1).trans ?_)⟩
  refine Option.bind_eq_some_iff.mpr ⟨done, hdone, ?_⟩
  exact if_neg fun h => hgrants h.1

/-- A grant for a UE with data. -/
theorem BacklogUe.postProcess {target : UlTarget} {ue : NrUeInfo} {k : ℕ} (h : BacklogUe d k ue)
    (hk : k < 8) (hslot : target.schedSlot = k + 1) :
    ∃ ue', ue.postProcess (plainUlEnv eightUlTdas) (backlogPusch target k) = some ue' ∧
      BacklogUe d (k + 1) ue' := by
  obtain ⟨last, sched, rfl⟩ := h
  obtain ⟨-, havailable, -, hpost⟩ := wornCtrl_spec hk
  have hgrant : (backlogPusch target k).grant = ⟨none, UInt16.ofNat (k + 1), 50⟩ := by
    rw [← hslot]
    rfl
  refine ⟨_, Option.bind_eq_some_iff.mpr ⟨k, havailable, Option.bind_eq_some_iff.mpr
    ⟨wornCtrl (k + 1), ?_, rfl⟩⟩, ⟨_, _⟩, _, rfl⟩
  rw [hgrant]
  exact hpost

theorem postProcess_sixteenProcesses (d : ℕ) (last : Fsn) (sched : ℕ → SchedPusch)
    (target : UlTarget) (k : ℕ) :
    ∃ ue', (backlogUe d sixteenProcesses last sched).postProcess (plainUlEnv eightUlTdas)
      (backlogPusch target k) = some ue' := Option.isSome_iff_exists.mp rfl

def roundUes (i j d d' budget r : ℕ) : List UeOnBeam :=
  [⟨i, d, 0, 100000 - 50 * r, true⟩, ⟨j, d', 1, 100000, decide (r + 1 = budget)⟩]

theorem BeforeRound.candidates (h : BeforeRound beams i j d d' budget r s) (hr : r < 8)
    (target : UlTarget) {l₁ l₂ l₃ : List ℕ} (hnodup : (l₁ ++ i :: (l₂ ++ j :: l₃)).Nodup) :
    (collectUlCandidates (plainUlEnv eightUlTdas) target s.cell.ues
      (l₁ ++ i :: (l₂ ++ j :: l₃))).take maxMobilesPerGnb =
      (roundUes i j d d' budget r).map fun x => backlogCandidate x.ue x.direction x.pending := by
  have hothers : ∀ u, u ≠ i → u ≠ j →
      collectUlCandidate (plainUlEnv eightUlTdas) target u (s.cell.ues u) = none := by
    intro u hi hj
    unfold collectUlCandidate
    rw [h.others u hi hj]
    rfl
  unfold collectUlCandidates
  rw [filterMap_two hnodup hothers, h.first.collect hr, h.second.collect (by decide)]
  rfl

/-- A round before the last one gives one grant, the last one gives two. -/
theorem BeforeRound.round (h : BeforeRound beams i j d d' budget r s) (bw : ℕ) (hbeams : 2 ≤ beams)
    (hdir : d ≠ d') (hbudget : budget ≤ 8) (hr : r < budget) {l₁ l₂ l₃ : List ℕ}
    (hnodup : (l₁ ++ i :: (l₂ ++ j :: l₃)).Nodup) (hij : i ≠ j) :
    ∃ s', ulPreprocRound (fddConfig bw) (plainUlEnv eightUlTdas) (l₁ ++ i :: (l₂ ++ j :: l₃)) ⟨0, 0⟩
        (backlogOutcome budget r) s = some (true, s') ∧
      s'.dispatched.length = r + (if r + 1 = budget then 2 else 1) ∧
      (r + 1 ≠ budget → BeforeRound beams i j d d' budget (r + 1) s') := by
  have hr8 : r < 8 := by omega
  obtain ⟨target, htarget⟩ : ∃ target, target =
      (backlogOutcome budget r).target 20 0 ⟨0, 0⟩ (r + 1) := ⟨_, rfl⟩
  have hcands := h.candidates hr8 target hnodup
  have hslot : target.schedSlot = r + 1 := by
    rw [htarget]
    change (0 + (r + 1) + 0) % 20 = r + 1
    omega
  obtain ⟨ue', hue', hbacklog⟩ := h.first.postProcess hr8 hslot
  obtain ⟨last, sched, hfirst⟩ := h.first
  obtain ⟨last', sched', hsecond⟩ := h.second
  have htwo : ∀ P : UeOnBeam → Prop, P ⟨i, d, 0, 100000 - 50 * r, true⟩ →
      P ⟨j, d', 1, 100000, decide (r + 1 = budget)⟩ → ∀ x ∈ roundUes i j d d' budget r, P x := by
    intro P hi hj x hx
    simp only [roundUes, List.mem_cons, List.not_mem_nil, or_false] at hx
    rcases hx with rfl | rfl
    · exact hi
    · exact hj
  have hready : BacklogSlot target r s.cell.ues (backlogOutcome budget r).vrbMap
      (roundUes i j d d' budget r) := by
    constructor
    case lt => exact hr8
    case k2 => rw [htarget]; rfl
    case cce => exact fun _ _ => by rw [htarget]; rfl
    case ne_nil => exact List.cons_ne_nil _ _
    case groups => rfl
    case distinct => simpa [roundUes] using hij
    case apart => simp [roundUes]
    case nonneg => exact htwo _ le_rfl Int.one_nonneg
    case map =>
      refine htwo _ ?_ ?_
      · exact funext fun _ => by simp [backlogOutcome, UeOnBeam.map]
      · exact funext fun _ => by simp [backlogOutcome, UeOnBeam.map]
    case data => exact htwo _ ⟨_, _, _, hfirst⟩ ⟨_, _, _, hsecond⟩
    case post =>
      refine htwo _ ⟨ue', hue'⟩ ?_
      dsimp only
      rw [hsecond]
      exact postProcess_sixteenProcesses ..
  obtain ⟨done, hdone, hinfo, hlen, hothers, hserved⟩ := nrUlSchedule_backlog target
    (roundUes i j d d' budget r) s.maxDci s.cell (backlogOutcome budget r).vrbMap hready
    (htwo _ (fun c hc => by rw [h.beamInfo]; exact (ulBeamSelect_twoDirections hbeams hdir).1 hc)
      fun c hc => by rw [h.beamInfo]; exact (ulBeamSelect_twoDirections hbeams hdir).2 hc)
  have hgrants : done.dispatched.length = if r + 1 = budget then 2 else 1 := by
    rw [hlen]
    by_cases hlast : r + 1 = budget <;> simp [roundUes, hlast]
  have hround := ulPreprocSlot_of bw hr8 (htarget ▸ hcands) (by simp [roundUes])
    (htarget ▸ hdone) (by rw [hgrants]; split_ifs <;> omega)
  refine ⟨_, (ulPreprocRound_fdd hr8 h.next).trans hround, ?_, fun hmore => ?_⟩
  · rw [List.length_append, hgrants, h.dispatched]
  -- the second beam is taken, so the UE on it waits as it did before
  rw [if_neg hmore] at hgrants
  constructor
  case next =>
    dsimp only
    rw [h.next]
    interval_cases r <;> decide
  case maxDci =>
    have hmax := h.maxDci
    simp only [hgrants]
    omega
  case dispatched => rw [List.length_append, hgrants, h.dispatched]
  case beamInfo => exact hinfo.trans h.beamInfo
  case first =>
    have hsame := hue'.symm.trans (hserved _ List.mem_cons_self rfl)
    rw [← Option.some.inj hsame]
    exact hbacklog
  case second =>
    rw [hothers j (htwo _ (fun _ => hij) fun hfree => absurd (of_decide_eq_true hfree) hmore)]
    exact h.second
  case others =>
    intro u hi hj
    rw [hothers u (htwo _ (fun _ => hi.symm) fun _ => hj.symm)]
    exact h.others u hi hj

/-- From round `r` on the call exceeds its budget by one grant. -/
theorem BeforeRound.rounds (bw : ℕ) (hbeams : 2 ≤ beams) (hdir : d ≠ d') (hbudget : budget ≤ 8)
    {l₁ l₂ l₃ : List ℕ} (hnodup : (l₁ ++ i :: (l₂ ++ j :: l₃)).Nodup) (hij : i ≠ j) (rest : ℕ)
    (h : BeforeRound beams i j d d' budget r s) (hr : r + rest + 1 = budget) :
    ∃ s', ulPreprocRounds (fddConfig bw) (plainUlEnv eightUlTdas) (l₁ ++ i :: (l₂ ++ j :: l₃))
        ⟨0, 0⟩ (backlogOutcome budget) (rest + 1) r s = some s' ∧
      s'.dispatched.length = budget + 1 := by
  have hmax : s.maxDci ≠ 0 := by
    have hmax := h.maxDci
    omega
  induction rest generalizing r s with
  -- one DCI is left in the last round, and each beam has it
  | zero =>
    obtain ⟨s', hround, hlen, -⟩ := h.round bw hbeams hdir hbudget (by omega) hnodup hij
    refine ⟨s', ?_, ?_⟩
    · rw [ulPreprocRounds, if_neg hmax, hround]
      rfl
    · rw [hlen, if_pos hr]
      omega
  | succ rest ih =>
    obtain ⟨t, hround, -, ht⟩ := h.round bw hbeams hdir hbudget (by omega) hnodup hij
    have hnext := ht (by omega)
    have hmax_t := hnext.maxDci
    obtain ⟨s', hrest, hlen⟩ := ih hnext (by omega) (by omega)
    refine ⟨s', ?_, hlen⟩
    rw [ulPreprocRounds, if_neg hmax, hround]
    exact hrest

/-- Two UEs of different directions on two beams get one grant more than the budget. -/
theorem nrUlschPreprocessor_exceeds (direction : ℕ → ℕ) (l₁ l₂ l₃ : List ℕ) {bw : ℕ}
    (hbeams : 2 ≤ beams) (hdir : direction i ≠ direction j) (hbw : 24 ≤ bw)
    (hnodup : (l₁ ++ i :: (l₂ ++ j :: l₃)).Nodup) :
    ∃ s', nrUlschPreprocessor (fddConfig bw) (plainUlEnv eightUlTdas) (l₁ ++ i :: (l₂ ++ j :: l₃))
        ⟨0, 0⟩ (backlogOutcome (ulDciBudget bw)) (ulDciBudget bw) ⟨0, 1⟩
        (backlogCell beams i j (direction i) (direction j) direction) = some s' ∧
      s'.dispatched.length = ulDciBudget bw + 1 := by
  have hij : i ≠ j := fun h => hdir (congrArg direction h)
  have hbudget : ulDciBudget bw ≤ 8 := Nat.min_le_right ..
  have hpos : 1 ≤ ulDciBudget bw :=
    Nat.le_min.mpr ⟨(Nat.le_div_iff_mul_le (by decide)).mpr hbw, by decide⟩
  obtain ⟨rest, hrest⟩ := Nat.exists_eq_add_of_le' hpos
  have hfirst : BacklogUe (direction i) 0
      ((backlogCell beams i j (direction i) (direction j) direction).ues i) := by
    refine ⟨⟨0, 0⟩, fun _ => .zero, ?_⟩
    simp only [backlogCell, true_or, decide_true]
    rfl
  have hsecond : BacklogUe (direction j) 0
      ((backlogCell beams i j (direction i) (direction j) direction).ues j) := by
    refine ⟨⟨0, 0⟩, fun _ => .zero, ?_⟩
    simp only [backlogCell, or_true, decide_true]
    rfl
  have hstart : BeforeRound beams i j (direction i) (direction j) (ulDciBudget bw) 0
      ⟨backlogCell beams i j (direction i) (direction j) direction, ⟨0, 1⟩, ulDciBudget bw, []⟩ :=
    ⟨rfl, rfl, rfl, rfl, hfirst, hsecond, fun u hi hj => decide_eq_false (by simp [hi, hj])⟩
  obtain ⟨s', hrun, hlen⟩ := BeforeRound.rounds bw hbeams hdir hbudget hnodup hij rest hstart
    (by omega)
  rw [← hrest] at hrun
  exact ⟨s', hrun, hlen⟩

end Call

/-! ### The exact condition -/

/-- No call for connected UEs with these directions exceeds the budget, in a cell of a bandwidth
with a number of beams. -/
def WithinBudget (beams bw : ℕ) (connected : List ℕ) (direction : ℕ → ℕ) : Prop :=
  ∀ (cfg : UlCellConfig) (env : UlEnv) (current : Fsn) (outcomes : ℕ → UlRoundOutcome) (rounds : ℕ)
    (ulNext : Fsn) (cell : UlCell) (s : UlPreproc), cfg.carrierBandwidth = bw →
    numBeams cell.beamInfo = beams → (∀ i ∈ connected, (cell.ues i).ueBeamIndex = direction i) →
    nrUlschPreprocessor cfg env connected current outcomes rounds ulNext cell = some s →
    s.dispatched.length ≤ ulDciBudget bw

theorem exists_split_of_mem {α : Type*} {R : α → α → Prop} (hsymm : ∀ a b, R a b → R b a)
    {l : List α} {i j : α} (hi : i ∈ l) (hj : j ∈ l) (hR : R i j) (hne : i ≠ j) :
    ∃ a b l₁ l₂ l₃, l = l₁ ++ a :: (l₂ ++ b :: l₃) ∧ R a b := by
  obtain ⟨l₁, l₂, rfl⟩ := List.append_of_mem hi
  rcases List.mem_append.mp hj with hj | hj
  · obtain ⟨l₃, l₄, rfl⟩ := List.append_of_mem hj
    exact ⟨j, i, l₃, l₄, l₂, by simp, hsymm i j hR⟩
  · rcases List.mem_cons.mp hj with heq | hj
    · exact absurd heq.symm hne
    · obtain ⟨l₃, l₄, rfl⟩ := List.append_of_mem hj
      exact ⟨i, j, l₁, l₃, l₄, rfl, hR⟩

/-- The budget holds exactly with one beam, with no budget at all, and with UEs of one direction. -/
theorem ulDciBudget_iff (beams bw : ℕ) (direction : ℕ → ℕ) {connected : List ℕ}
    (hnodup : connected.Nodup) :
    WithinBudget beams bw connected direction ↔
      beams ≤ 1 ∨ bw < 24 ∨ ∀ i ∈ connected, ∀ j ∈ connected, direction i = direction j := by
  constructor
  · intro hwithin
    by_contra hnot
    simp only [not_or, not_le, not_lt, not_forall] at hnot
    obtain ⟨hbeams, hbw, i, hi, j, hj, hdir⟩ := hnot
    obtain ⟨a, b, l₁, l₂, l₃, rfl, hab⟩ := exists_split_of_mem
      (R := fun i j => direction i ≠ direction j) (fun _ _ h => h.symm) hi hj hdir
      (fun h => hdir (congrArg direction h))
    obtain ⟨s', hrun, hlen⟩ := nrUlschPreprocessor_exceeds direction l₁ l₂ l₃ hbeams hab hbw hnodup
    have hle := hwithin _ _ _ _ _ _ _ _ rfl rfl (fun _ _ => rfl) hrun
    omega
  · intro h cfg env current outcomes rounds ulNext cell s hcfg hbeams hdir hrun
    subst hcfg
    rcases h with hone | hsmall | hsame
    · exact nrUlschPreprocessor_le_of_one_beam (hbeams ▸ hone) hrun
    · have hzero : ulDciBudget cfg.carrierBandwidth = 0 := by
        unfold ulDciBudget nrNbRegPerCce
        omega
      have hle := nrUlschPreprocessor_dispatched_le_mul hrun
      rw [hzero, Nat.mul_zero] at hle
      exact hle.trans (Nat.zero_le _)
    · cases connected with
      | nil =>
        exact nrUlschPreprocessor_le_of_one_direction 0
          (fun i hi => absurd hi List.not_mem_nil) hrun
      | cons u connected =>
        exact nrUlschPreprocessor_le_of_one_direction (direction u)
          (fun i hi => (hdir i hi).trans (hsame i hi u List.mem_cons_self)) hrun

/-- Two UEs on two beams, with a carrier that is wide enough for one DCI. -/
theorem ulDciBudget_iff_two_ues :
    ¬ WithinBudget 2 24 [3, 5] (fun i => i) ∧ WithinBudget 2 24 [3, 5] (fun _ => 0) :=
  ⟨fun h => by
      have hcond := (ulDciBudget_iff 2 24 (fun i => i) (by decide)).mp h
      revert hcond
      decide,
    (ulDciBudget_iff 2 24 (fun _ => 0) (by decide)).mpr (.inr (.inr fun _ _ _ _ => rfl))⟩

/-- A carrier of 24 resource blocks has a budget of one DCI, and two UEs on two beams get two
grants. -/
theorem nrUlschPreprocessor_two_grants :
    ulDciBudget 24 = 1 ∧ ∃ s, nrUlschPreprocessor (fddConfig 24) (plainUlEnv eightUlTdas) [3, 5]
      ⟨0, 0⟩ (backlogOutcome 1) 1 ⟨0, 1⟩ (backlogCell 2 3 5 3 5 fun i => i) = some s ∧
      s.dispatched.length = 2 :=
  ⟨by decide, nrUlschPreprocessor_exceeds (fun i => i) [] [] [] (le_refl 2) (by decide)
    (le_refl 24) (by decide)⟩

end LlmHric.Mac
