import LlmHric.Library.SortedRuns
import LlmHric.Mac.UlAllocation

/-! In each downlink slot `nr_ulsch_preprocessor` walks over the uplink slots that can be reached
with the table of time-domain allocations, and schedules each of them with what is left of a budget
of DCIs. Slots are pairs of a frame and a slot in it, and are compared modulo 1024 frames.

What the radio decides in a round (which CCEs are free, what is taken in the VRB maps) is given by a
function of the round, and the loop is followed for any number of rounds. -/

namespace LlmHric.Mac

open Sweep SortedRuns

/-- `fsn_t`, for a numerology that is the same everywhere. -/
structure Fsn where
  f : ℕ
  s : ℕ
  deriving DecidableEq

/-- `fsn_add_delta`. -/
def fsnAddDelta (slotsFrame : ℕ) (fsn : Fsn) (delta : ℕ) : Fsn :=
  let nextF := fsn.f + delta / slotsFrame
  let nextS := fsn.s + delta % slotsFrame
  ⟨(nextF + nextS / slotsFrame) % 1024, nextS % slotsFrame⟩

/-- `fsn_get_diff`. -/
def fsnGetDiff (slotsFrame : ℕ) (a b : Fsn) : ℤ :=
  let diff : ℤ := (a.f * slotsFrame + a.s) - (b.f * slotsFrame + b.s)
  if diff < -512 * slotsFrame then diff + 1024 * slotsFrame
  else if diff > 512 * slotsFrame then diff - 1024 * slotsFrame
  else diff

/-- `fsn_get_max`. -/
def fsnGetMax (slotsFrame : ℕ) (a b : Fsn) : Fsn :=
  if fsnGetDiff slotsFrame a b ≤ 0 then b else a

/-- The search of `nr_ulsch_preprocessor` for an uplink slot, for a number of steps. -/
def nextUlSlot (slotsFrame : ℕ) (isUlSlot : ℕ → Bool) : ℕ → Fsn → Option Fsn
  | 0, _ => none
  | steps + 1, next =>
    if isUlSlot next.s then some next
    else nextUlSlot slotsFrame isUlSlot steps (fsnAddDelta slotsFrame next 1)

/-! ### The loop -/

/-- The configuration that the loop reads: the carrier, the offset of a non-terrestrial network, the
processing time and the frame structure. -/
structure UlCellConfig where
  carrierBandwidth : ℕ
  koffset : ℕ
  minRxTxTime : ℕ
  isUlSlot : ℕ → Bool
  isDlSlot : ℕ → Bool
  numDlSlots : ℕ

/-- `NR_NB_REG_PER_CCE`. -/
def nrNbRegPerCce : ℕ := 6

/-- `MAX_DCI_CORESET`: more DCIs do not fit into a FAPI message. -/
def maxDciCoreset : ℕ := 8

/-- `MAX_MOBILES_PER_GNB`. -/
def maxMobilesPerGnb : ℕ := 16

/-- The `max_dci` that a call starts with, for an average aggregation level of 4. -/
def ulDciBudget (bw : ℕ) : ℕ := min (bw / (4 * nrNbRegPerCce)) maxDciCoreset

/-- The `num_beams` of the loop. -/
def numBeams (beamInfo : Option NrBeamInfo) : ℕ :=
  match beamInfo with
  | none => 1
  | some info => info.beamsPerPeriod

/-- What is decided outside in a round. -/
structure UlRoundOutcome where
  nrUlValidateCce : ℕ → UlCandidate → Bool
  /-- `vrb_map_UL` of every beam, in the target slot. -/
  vrbMap : ℤ → VrbMap

/-- What the loop changes. A budget that was exceeded ends the loop as one that is used up. -/
structure UlPreproc where
  cell : UlCell
  next : Fsn
  maxDci : ℕ
  /-- The grants of all rounds so far. -/
  dispatched : List (UlCandidate × SchedPusch)

def UlRoundOutcome.target (out : UlRoundOutcome) (slotsFrame koffset : ℕ) (current : Fsn) (k2 : ℕ) :
    UlTarget where
  frame := current.f
  slot := current.s
  schedFrame := (current.f + (current.s + k2 + koffset) / slotsFrame) % 1024
  schedSlot := (current.s + k2 + koffset) % slotsFrame
  k2 := k2
  nrUlValidateCce := out.nrUlValidateCce

/-- One round of the loop, from the choice of the target slot on; the loop ends with `false`. -/
def ulPreprocSlot (cfg : UlCellConfig) (env : UlEnv) (connected : List ℕ) (current : Fsn)
    (out : UlRoundOutcome) (k2 : ℕ) (s : UlPreproc) : Option (Bool × UlPreproc) := do
  let lastDl := decide (current.s % env.numbSlotsPeriod + 1 = cfg.numDlSlots)
  let target := out.target env.slotsPerFrame cfg.koffset current k2
  let window ← getNumUlTda env.ulTda (env.getUlBitmap target.schedSlot) k2
  if window.2 = 0 then some (false, s)
  else
    let cands := (collectUlCandidates env target s.cell.ues connected).take maxMobilesPerGnb
    if cands.length = 0 ∧ !lastDl then some (false, s)
    else do
      let done ← nrUlSchedule env target s.maxDci s.cell out.vrbMap cands
      let s := { s with cell := done.cell, dispatched := s.dispatched ++ done.dispatched }
      if done.dispatched.length = 0 ∧ !lastDl then some (false, s)
      else
        some (true, { s with
          maxDci := s.maxDci - done.dispatched.length
          next := fsnAddDelta env.slotsPerFrame s.next 1 })

/-- One round of the loop; the loop ends with `false`. -/
def ulPreprocRound (cfg : UlCellConfig) (env : UlEnv) (connected : List ℕ) (current : Fsn)
    (out : UlRoundOutcome) (s : UlPreproc) : Option (Bool × UlPreproc) := do
  let minNext := fsnAddDelta env.slotsPerFrame current (cfg.minRxTxTime + cfg.koffset)
  let next ← nextUlSlot env.slotsPerFrame cfg.isUlSlot env.slotsPerFrame
    (fsnGetMax env.slotsPerFrame s.next minNext)
  let s := { s with next := next }
  if !cfg.isDlSlot current.s then some (false, s)
  else
    let k2 := fsnGetDiff env.slotsPerFrame next current - cfg.koffset
    if k2 ≤ 0 then none
    else ulPreprocSlot cfg env connected current out k2.toNat s

/-- The loop from round `i` on, for at most the given number of rounds. -/
def ulPreprocRounds (cfg : UlCellConfig) (env : UlEnv) (connected : List ℕ) (current : Fsn)
    (outcomes : ℕ → UlRoundOutcome) : ℕ → ℕ → UlPreproc → Option UlPreproc
  | 0, _, s => some s
  | rounds + 1, i, s =>
    if s.maxDci = 0 then some s
    else do
      let (more, s) ← ulPreprocRound cfg env connected current (outcomes i) s
      if more then ulPreprocRounds cfg env connected current outcomes rounds (i + 1) s else some s

/-- The first rounds of `nr_ulsch_preprocessor`. -/
def nrUlschPreprocessor (cfg : UlCellConfig) (env : UlEnv) (connected : List ℕ) (current : Fsn)
    (outcomes : ℕ → UlRoundOutcome) (rounds : ℕ) (ulNext : Fsn) (cell : UlCell) :
    Option UlPreproc :=
  ulPreprocRounds cfg env connected current outcomes rounds 0
    ⟨cell, ulNext, ulDciBudget cfg.carrierBandwidth, []⟩

/-! ### The grants of a policy call -/

section Policy

variable {env : UlEnv} {ues : ℕ → NrUeInfo} {target : UlTarget} {maxNumUe i : ℕ} {s : UlPolicyState}
  {c : UlCandidate} {cands : List UlCandidate}

def ulScheduledCount (cands : List UlCandidate) : ℕ := cands.countP fun c => c.scheduled

@[simp] theorem ulScheduledCount_append (cands cands' : List UlCandidate) :
    ulScheduledCount (cands ++ cands') = ulScheduledCount cands + ulScheduledCount cands' :=
  List.countP_append

theorem ulScheduledCount_cons (c : UlCandidate) (cands : List UlCandidate) :
    ulScheduledCount (c :: cands) = (if c.scheduled then 1 else 0) + ulScheduledCount cands := by
  rw [ulScheduledCount, List.countP_cons, Nat.add_comm]
  rfl

theorem UlUnscheduled.ulScheduledCount_eq (h : UlUnscheduled cands) :
    ulScheduledCount cands = 0 := by
  refine List.countP_eq_zero.mpr fun c hc => ?_
  rw [h c hc]
  exact Bool.false_ne_true

theorem UlCandidate.ServedBefore.scheduled_eq_false (h : c.ServedBefore i) (hphase : c.phase = i) :
    c.scheduled = false := by
  by_contra hs
  rw [Bool.not_eq_false] at hs
  exact absurd hphase (Nat.ne_of_lt (h hs))

/-- A round keeps that the policy counts what it schedules. -/
theorem UlVisitStep.counted {pre post : List UlCandidate} {v : Visit UlPolicyState UlCandidate}
    (hstep : UlVisitStep env target maxNumUe i s c v) (hc : c.ServedBefore i)
    (h : ulScheduledCount (pre ++ c :: post) = s.nScheduled) :
    ulScheduledCount (pre ++ v.item :: post) = v.state.nScheduled ∧
      v.item.ServedBefore (i + 1) := by
  rw [ulScheduledCount_append, ulScheduledCount_cons] at h ⊢
  cases hstep with
  | pass => exact ⟨h, fun hs => Nat.lt_succ_of_lt (hc hs)⟩
  | hang => exact ⟨h, fun hs => Nat.lt_succ_of_lt (hc hs)⟩
  | commit rbStart rbSize mcs hphase hfits hretx =>
    have hun := hc.scheduled_eq_false hphase
    rw [hun] at h
    cases hvalid : target.nrUlValidateCce s.validations (c.allocate rbStart rbSize mcs) with
    | false =>
      rw [commitUlAllocOrStop_of_invalid hvalid]
      have hitem : (c.allocate rbStart rbSize mcs).scheduled = false := hun
      refine ⟨?_, fun hs => ?_⟩
      · dsimp only
        rw [hitem]
        exact h
      · exact absurd (hitem.symm.trans hs) Bool.false_ne_true
    | true =>
      rw [commitUlAllocOrStop_of_valid hvalid]
      refine ⟨?_, fun _ => hphase ▸ Nat.lt_succ_self c.phase⟩
      dsimp only
      rw [if_pos rfl]
      rw [if_neg Bool.false_ne_true] at h
      omega

/-- A round goes on only below the limit. -/
theorem UlVisitStep.limited {v : Visit UlPolicyState UlCandidate}
    (hstep : UlVisitStep env target maxNumUe i s c v) (h : s.nScheduled < maxNumUe) :
    v.state.nScheduled ≤ maxNumUe ∧ (v.stop = false → v.state.nScheduled < maxNumUe) := by
  cases hstep with
  | pass => exact ⟨h.le, fun _ => h⟩
  | hang => exact ⟨h.le, fun _ => h⟩
  | commit rbStart rbSize mcs =>
    cases hvalid : target.nrUlValidateCce s.validations (c.allocate rbStart rbSize mcs) with
    | false =>
      rw [commitUlAllocOrStop_of_invalid hvalid]
      exact ⟨h.le, fun _ => h⟩
    | true =>
      rw [commitUlAllocOrStop_of_valid hvalid]
      refine ⟨h, fun hstop => ?_⟩
      exact Nat.lt_of_not_le (of_decide_eq_false hstop)

/-- A policy call does not schedule more candidates than its limit. -/
theorem nrUlProportionalFair_ulScheduledCount_le {s' : UlPolicyState} {cands' : List UlCandidate}
    (h : UlUnscheduled cands) (hmax : 0 < maxNumUe)
    (hrun : nrUlProportionalFair env ues target maxNumUe s cands = some (s', cands')) :
    ulScheduledCount cands' ≤ maxNumUe := by
  have horder : UlUnscheduled (env.pfRbSort (cands.filter fun c => !c.skipped)) := fun c hc =>
    h c (List.mem_filter.mp ((env.pfRbSort_perm _).mem_iff.mp hc)).1
  have hskipped : UlUnscheduled (cands.filter fun c => c.skipped) := fun c hc =>
    h c (List.mem_filter.mp hc).1
  unfold nrUlProportionalFair at hrun
  dsimp only at hrun
  obtain ⟨start, hstart⟩ : ∃ start : UlPolicyState, start =
      { s with nScheduled := 0, hung := false } :=
    ⟨_, rfl⟩
  have hzero : start.nScheduled = 0 := by rw [hstart]
  generalize env.pfRbSort (cands.filter fun c => !c.skipped) = order at hrun horder
  obtain ⟨pass, hpass⟩ : ∃ pass, pass = runAll (ulPhases env ues target maxNumUe) start order :=
    ⟨_, rfl⟩
  have hcounted : ulScheduledCount pass.items = pass.state.nScheduled := by
    rw [hpass]
    refine runAll_invariant (P := UlCandidate.ServedBefore)
      (I := fun (t : UlPolicyState) items => ulScheduledCount items = t.nScheduled)
      (fun i visit hi pre t a post ha hI => (ulPhases_step hi).counted ha hI)
      (fun i a ha hs => Nat.lt_succ_of_lt (ha hs))
      (fun a ha hs => absurd ((horder a ha).symm.trans hs) Bool.false_ne_true) ?_
    rw [horder.ulScheduledCount_eq, hzero]
  have hlimited : pass.state.nScheduled ≤ maxNumUe := by
    rw [hpass]
    refine runAll_stop_invariant (I := fun t : UlPolicyState => t.nScheduled < maxNumUe)
      (J := fun t : UlPolicyState => t.nScheduled ≤ maxNumUe) (fun visit hvisit t a ht => ?_)
      (fun t ht => ht.le) (hzero ▸ hmax)
    obtain ⟨i, hi⟩ := List.mem_iff_getElem?.mp hvisit
    exact (ulPhases_step hi).limited ht
  rw [← hstart, ← hpass] at hrun
  split_ifs at hrun
  cases hrun
  rw [ulScheduledCount_append, hskipped.ulScheduledCount_eq, Nat.add_zero, hcounted]
  exact hlimited

/-- The group gets a policy call. -/
def gotCall (g : List UlCandidate) : Bool := !g.all fun c => c.allocBeamIdx < 0

/-- The policy calls of a slot together do not schedule more candidates than each of them may. -/
theorem allocUlBeams_ulScheduledCount_le {s' : UlPolicyState} {cands' : List UlCandidate}
    {groups : List (List UlCandidate)} (h : ∀ g ∈ groups, UlUnscheduled g) (hmax : 0 < maxNumUe)
    (hrun : allocUlBeams env ues target maxNumUe s groups = some (s', cands')) :
    ulScheduledCount cands' ≤ (groups.filter gotCall).length * maxNumUe := by
  induction groups generalizing s s' cands' with
  | nil =>
    cases hrun
    exact Nat.zero_le _
  | cons g groups ih =>
    have hg := h g List.mem_cons_self
    have htail : ∀ g' ∈ groups, UlUnscheduled g' := fun g' hg' => h g' (List.mem_cons_of_mem g hg')
    rw [allocUlBeams] at hrun
    cases hcall : g.all fun c => c.allocBeamIdx < 0 with
    | true =>
      rw [if_pos hcall] at hrun
      obtain ⟨⟨t, rest⟩, hrest, hrun⟩ := Option.bind_eq_some_iff.mp hrun
      cases hrun
      rw [ulScheduledCount_append, hg.ulScheduledCount_eq, Nat.zero_add,
        List.filter_cons_of_neg (by simp [gotCall, hcall])]
      exact ih htail hrest
    | false =>
      rw [if_neg (by rw [hcall]; exact Bool.false_ne_true)] at hrun
      obtain ⟨⟨t, out⟩, hcand, hrun⟩ := Option.bind_eq_some_iff.mp hrun
      obtain ⟨⟨u, rest⟩, hrest, hrun⟩ := Option.bind_eq_some_iff.mp hrun
      cases hrun
      have hhead := nrUlProportionalFair_ulScheduledCount_le hg hmax hcand
      have hrest_le := ih htail hrest
      rw [ulScheduledCount_append, List.filter_cons_of_pos (by simp [gotCall, hcall]),
        List.length_cons, Nat.succ_mul]
      dsimp only at hhead hrest_le ⊢
      omega

end Policy

/-! ### The beams of the candidates -/

/-- The first entry that is not set to another direction is set to this one. -/
structure Home (column : ℕ → Option ℕ) (beamIndex i : ℕ) : Prop where
  set : column i = some beamIndex
  first : ∀ j < i, Taken column beamIndex j

section Home

variable {info : NrBeamInfo} {p q beamIndex i k : ℕ}

theorem Home.eq {column : ℕ → Option ℕ} (h : Home column beamIndex i)
    (h' : Home column beamIndex k) : i = k := by
  rcases Nat.lt_trichotomy i k with hlt | heq | hgt
  · exact absurd h.set (h'.first i hlt).2
  · exact heq
  · exact absurd h'.set (h.first k hgt).2

/-- A direction with an entry does not claim another one. -/
theorem Home.not_newBeam (h : Home (info.column p) beamIndex k) :
    (beamAllocationProcedure info p beamIndex).2.newBeam = false := by
  have hclaim := beamAllocationProcedure_claim info p beamIndex
  generalize beamAllocationProcedure info p beamIndex = beam at hclaim ⊢
  cases hclaim with
  | shared => rfl
  | full => rfl
  | fresh i hlt hfirst hfree =>
    exfalso
    rcases Nat.lt_trichotomy i k with hik | rfl | hki
    · exact (h.first i hik).1 hfree
    · exact Option.some_ne_none _ (h.set.symm.trans hfree)
    · exact (hfirst k hki).2 h.set

theorem column_write_of_ne (info : NrBeamInfo) (i : ℕ) (entry : Option ℕ) (h : p ≠ q) :
    (info.write i q entry).column p = info.column p := by
  funext j
  simp [NrBeamInfo.column, NrBeamInfo.write, h]

theorem resetBeamStatus_column_of_ne (info : NrBeamInfo) (beamIndex : ℕ) (newBeam : Bool)
    (h : p ≠ q) : (resetBeamStatus info q beamIndex newBeam).column p = info.column p := by
  unfold resetBeamStatus
  split_ifs
  · rfl
  · funext j
    simp [NrBeamInfo.column, h]

/-- Another allocation for the direction leaves its entry. -/
theorem Home.beamAllocation (h : Home (info.column p) beamIndex k) :
    Home ((beamAllocationProcedure info q beamIndex).1.column p) beamIndex k := by
  have hnew : q = p → (beamAllocationProcedure info q beamIndex).2.newBeam = false := by
    rintro rfl
    exact h.not_newBeam
  have hclaim := beamAllocationProcedure_claim info q beamIndex
  generalize beamAllocationProcedure info q beamIndex = beam at hclaim hnew ⊢
  cases hclaim with
  | shared => exact h
  | full => exact h
  | fresh i hlt hfirst hfree =>
    have hne : p ≠ q := fun heq => absurd (hnew heq.symm) (Bool.true_eq_false ▸ not_false)
    rwa [column_write_of_ne info i (some beamIndex) hne]

/-- An entry that is allocated is the first one for the direction. -/
theorem home_of_beamAllocation (h : (beamAllocationProcedure info p beamIndex).2.idx = some i) :
    Home ((beamAllocationProcedure info p beamIndex).1.column p) beamIndex i := by
  have hclaim := beamAllocationProcedure_claim info p beamIndex
  generalize beamAllocationProcedure info p beamIndex = beam at hclaim h ⊢
  cases hclaim with
  | shared j hlt hfirst hset =>
    obtain rfl := Option.some.inj h
    exact ⟨hset, hfirst⟩
  | full => cases h
  | fresh j hlt hfirst hfree =>
    obtain rfl := Option.some.inj h
    dsimp only
    rw [NrBeamInfo.column_write]
    refine ⟨Function.update_self .., fun m hm => ?_⟩
    have htaken := hfirst m hm
    rwa [Taken, Function.update_of_ne (Nat.ne_of_lt hm)]

theorem idx_lt_of_beamAllocation (h : (beamAllocationProcedure info p beamIndex).2.idx = some i) :
    i < info.beamsPerPeriod := by
  have hclaim := beamAllocationProcedure_claim info p beamIndex
  generalize beamAllocationProcedure info p beamIndex = beam at hclaim h
  cases hclaim with
  | shared j hlt hfirst hset =>
    obtain rfl := Option.some.inj h
    exact hlt
  | full => cases h
  | fresh j hlt hfirst hfree =>
    obtain rfl := Option.some.inj h
    exact hlt

/-- The shape of the table, which says where a slot is found in it. -/
def NrBeamInfo.shape (info : NrBeamInfo) : ℕ × ℕ × ℕ :=
  (info.beamsPerPeriod, info.beamDuration, info.beamAllocationSize)

theorem shape_beamAllocation (info : NrBeamInfo) (q beamIndex : ℕ) :
    (beamAllocationProcedure info q beamIndex).1.shape = info.shape := by
  have hclaim := beamAllocationProcedure_claim info q beamIndex
  generalize beamAllocationProcedure info q beamIndex = beam at hclaim ⊢
  cases hclaim with
  | shared => rfl
  | full => rfl
  | fresh => rfl

theorem shape_resetBeamStatus (info : NrBeamInfo) (q beamIndex : ℕ) (newBeam : Bool) :
    (resetBeamStatus info q beamIndex newBeam).shape = info.shape := by
  unfold resetBeamStatus
  split_ifs
  · rfl
  · rfl

end Home

/-- A candidate that was given a beam was given one of these. -/
def UlCandidate.OnBeams (beams : List ℤ) (c : UlCandidate) : Prop :=
  0 ≤ c.allocBeamIdx → c.allocBeamIdx ∈ beams

/-- A direction has an entry in the target slot. -/
def Settled (n : ℕ) (target : UlTarget) (beamIndex : ℕ) : Option NrBeamInfo → ℕ → Prop
  | none, k => k = 0
  | some info, k =>
    Home (info.column (info.getBeamIndex target.schedFrame target.schedSlot n)) beamIndex k

section BeamSelection

variable {n k : ℕ} {target : UlTarget} {info : Option NrBeamInfo} {c : UlCandidate}
  {cands : List UlCandidate}

theorem Settled.eq {beamIndex i : ℕ} (h : Settled n target beamIndex info i)
    (h' : Settled n target beamIndex info k) : i = k := by
  cases info with
  | none => exact Eq.trans h (Eq.symm h')
  | some info => exact Home.eq h h'

theorem getBeamIndex_of_shape {info info' : NrBeamInfo} (h : info'.shape = info.shape)
    (frame slot : ℕ) : info'.getBeamIndex frame slot n = info.getBeamIndex frame slot n := by
  simp only [NrBeamInfo.shape, Prod.mk.injEq] at h
  rw [NrBeamInfo.getBeamIndex, NrBeamInfo.getBeamIndex, h.2.1, h.2.2]

/-- Allocating a beam, in whatever slot, leaves the entry of the direction. -/
theorem Settled.allocate {beamIndex frame slot : ℕ}
    (h : Settled n target beamIndex info k) :
    Settled n target beamIndex (ulBeamAllocation n frame slot info beamIndex).1 k := by
  cases info with
  | none => exact h
  | some info =>
    have hindex := getBeamIndex_of_shape (n := n) (shape_beamAllocation info
      (info.getBeamIndex frame slot n) beamIndex) target.schedFrame target.schedSlot
    unfold Settled ulBeamAllocation at *
    dsimp only at h ⊢
    rw [hindex]
    exact h.beamAllocation

/-- So does giving back a beam of the downlink slot. -/
theorem Settled.giveBack {beamIndex : ℕ} {before : Option NrBeamInfo}
    (h : Settled n target beamIndex info k) (hbefore : Settled n target beamIndex before k)
    (hshape : info.map NrBeamInfo.shape = before.map NrBeamInfo.shape) :
    Settled n target beamIndex (ulResetBeamStatus n target.frame target.slot info beamIndex
      (ulBeamAllocation n target.frame target.slot before beamIndex).2.newBeam) k := by
  cases info with
  | none => exact h
  | some info =>
    cases before with
    | none => cases hshape
    | some before =>
      have hshape : info.shape = before.shape := Option.some.inj hshape
      have hdci := getBeamIndex_of_shape (n := n) hshape target.frame target.slot
      have hsched := getBeamIndex_of_shape (n := n) hshape target.schedFrame target.schedSlot
      unfold Settled ulResetBeamStatus ulBeamAllocation at *
      dsimp only [Option.map_some] at h hbefore ⊢
      rw [getBeamIndex_of_shape (shape_resetBeamStatus ..)]
      by_cases heq : info.getBeamIndex target.schedFrame target.schedSlot n =
          info.getBeamIndex target.frame target.slot n
      · -- then the beam of the downlink slot was not a new one
        have hhome := hbefore
        rw [← hsched, heq, hdci] at hhome
        rw [hhome.not_newBeam]
        exact h
      · rw [resetBeamStatus_column_of_ne _ _ _ heq]
        exact h

theorem shape_ulBeamAllocation (info : Option NrBeamInfo) (frame slot beamIndex : ℕ) :
    (ulBeamAllocation n frame slot info beamIndex).1.map NrBeamInfo.shape =
      info.map NrBeamInfo.shape := by
  cases info with
  | none => rfl
  | some info => exact congrArg some (shape_beamAllocation ..)

theorem shape_ulResetBeamStatus (info : Option NrBeamInfo) (frame slot beamIndex : ℕ)
    (newBeam : Bool) :
    (ulResetBeamStatus n frame slot info beamIndex newBeam).map NrBeamInfo.shape =
      info.map NrBeamInfo.shape := by
  cases info with
  | none => rfl
  | some info => exact congrArg some (shape_resetBeamStatus ..)

theorem settled_of_ulBeamAllocation {beamIndex i : ℕ}
    (h : (ulBeamAllocation n target.schedFrame target.schedSlot info beamIndex).2.idx = some i) :
    Settled n target beamIndex
      (ulBeamAllocation n target.schedFrame target.schedSlot info beamIndex).1 i := by
  cases info with
  | none => exact (Option.some.inj h).symm
  | some info =>
    have hindex := getBeamIndex_of_shape (n := n) (shape_beamAllocation info
      (info.getBeamIndex target.schedFrame target.schedSlot n) beamIndex)
      target.schedFrame target.schedSlot
    unfold Settled ulBeamAllocation at *
    dsimp only at h ⊢
    rw [hindex]
    exact home_of_beamAllocation h

/-- What the selection of a beam does: the candidate gets no beam, or the entry of its direction. -/
theorem ulBeamSelect_settled (h : Settled n target c.beamIndex info k) :
    Settled n target c.beamIndex (ulBeamSelect n target info c).1 k ∧
      ((ulBeamSelect n target info c).2.allocBeamIdx = c.allocBeamIdx ∨
        (ulBeamSelect n target info c).2.allocBeamIdx = k) := by
  have hdci : Settled n target c.beamIndex
    (ulBeamAllocation n target.frame target.slot info c.beamIndex).1 k := h.allocate
  have hsched : Settled n target c.beamIndex (ulBeamAllocation n target.schedFrame
    target.schedSlot (ulBeamAllocation n target.frame target.slot info c.beamIndex).1
    c.beamIndex).1 k := hdci.allocate
  unfold ulBeamSelect
  dsimp only
  split
  · exact ⟨hdci, .inl rfl⟩
  · split
    · refine ⟨hsched.giveBack h ?_, .inl rfl⟩
      rw [shape_ulBeamAllocation, shape_ulBeamAllocation]
    next i hi =>
      refine ⟨hsched, .inr ?_⟩
      rw [(settled_of_ulBeamAllocation hi).eq hsched]

theorem ulBeamSelect_settles (n : ℕ) (target : UlTarget) (info : Option NrBeamInfo)
    (c : UlCandidate) :
    (ulBeamSelect n target info c).2.allocBeamIdx = c.allocBeamIdx ∨
      ∃ k : ℕ, (ulBeamSelect n target info c).2.allocBeamIdx = k ∧
        Settled n target c.beamIndex (ulBeamSelect n target info c).1 k := by
  unfold ulBeamSelect
  dsimp only
  split
  · exact .inl rfl
  · split
    · exact .inl rfl
    next i hi => exact .inr ⟨i, rfl, settled_of_ulBeamAllocation hi⟩

/-- Candidates of one direction get the entry that it has. -/
theorem ulBeamSelectLoop_settled {beamIndex : ℕ} (h : Settled n target beamIndex info k)
    (hc : ∀ c ∈ cands, c.beamIndex = beamIndex ∧ c.allocBeamIdx < 0) :
    ∀ c ∈ (ulBeamSelectLoop n target info cands).2, c.OnBeams [(k : ℤ)] := by
  induction cands generalizing info with
  | nil => exact fun c hc => absurd hc List.not_mem_nil
  | cons c cands ih =>
    obtain ⟨rfl, hnone⟩ := hc c List.mem_cons_self
    obtain ⟨hnext, hbeam⟩ := ulBeamSelect_settled h
    intro x hx
    rcases List.mem_cons.mp hx with rfl | hx
    · intro hpos
      rcases hbeam with hbeam | hbeam
      · rw [hbeam] at hpos
        omega
      · exact List.mem_singleton.mpr hbeam
    · exact ih hnext (fun y hy => hc y (List.mem_cons_of_mem c hy)) x hx

/-- Candidates of one direction get one beam. -/
theorem ulBeamSelectLoop_one_beam {beamIndex : ℕ}
    (hc : ∀ c ∈ cands, c.beamIndex = beamIndex ∧ c.allocBeamIdx < 0) :
    ∃ k : ℕ, ∀ c ∈ (ulBeamSelectLoop n target info cands).2, c.OnBeams [(k : ℤ)] := by
  induction cands generalizing info with
  | nil => exact ⟨0, fun c hc => absurd hc List.not_mem_nil⟩
  | cons c cands ih =>
    obtain ⟨rfl, hnone⟩ := hc c List.mem_cons_self
    have htail : ∀ y ∈ cands, y.beamIndex = c.beamIndex ∧ y.allocBeamIdx < 0 :=
      fun y hy => hc y (List.mem_cons_of_mem c hy)
    rcases ulBeamSelect_settles n target info c with
      hbeam | ⟨k, hbeam, hsettled⟩
    · -- this candidate has no beam
      obtain ⟨k, hk⟩ := ih htail
      refine ⟨k, fun x hx => ?_⟩
      rcases List.mem_cons.mp hx with rfl | hx
      · intro hpos
        rw [hbeam] at hpos
        omega
      · exact hk x hx
    · refine ⟨k, fun x hx => ?_⟩
      rcases List.mem_cons.mp hx with rfl | hx
      · exact fun _ => List.mem_singleton.mpr hbeam
      · exact ulBeamSelectLoop_settled hsettled htail x hx

theorem numBeams_of_shape {info info' : Option NrBeamInfo}
    (h : info'.map NrBeamInfo.shape = info.map NrBeamInfo.shape) :
    numBeams info' = numBeams info := by
  cases info with
  | none =>
    obtain rfl := Option.map_eq_none_iff.mp h
    rfl
  | some info =>
    obtain ⟨info', rfl, hshape⟩ := Option.map_eq_some_iff.mp h
    exact congrArg Prod.fst hshape

theorem shape_ulBeamSelect :
    (ulBeamSelect n target info c).1.map NrBeamInfo.shape = info.map NrBeamInfo.shape := by
  unfold ulBeamSelect
  dsimp only
  split
  · exact shape_ulBeamAllocation ..
  · split
    · rw [shape_ulResetBeamStatus, shape_ulBeamAllocation, shape_ulBeamAllocation]
    · rw [shape_ulBeamAllocation, shape_ulBeamAllocation]

theorem shape_ulBeamSelectLoop :
    (ulBeamSelectLoop n target info cands).1.map NrBeamInfo.shape = info.map NrBeamInfo.shape := by
  induction cands generalizing info with
  | nil => rfl
  | cons c cands ih => exact ih.trans shape_ulBeamSelect

theorem shape_releaseUlBeams :
    (releaseUlBeams n target info cands).map NrBeamInfo.shape = info.map NrBeamInfo.shape := by
  induction cands generalizing info with
  | nil => rfl
  | cons c cands ih =>
    rw [releaseUlBeams]
    dsimp only
    split_ifs
    · rw [ih, shape_ulResetBeamStatus, shape_ulResetBeamStatus]
    · exact ih

theorem idx_lt_of_ulBeamAllocation {frame slot beamIndex i : ℕ}
    (h : (ulBeamAllocation n frame slot info beamIndex).2.idx = some i) : i < numBeams info := by
  cases info with
  | none =>
    obtain rfl := Option.some.inj h
    exact Nat.one_pos
  | some info => exact idx_lt_of_beamAllocation h

theorem ulBeamSelectLoop_onBeams (hc : ∀ c ∈ cands, c.allocBeamIdx < 0) :
    ∀ c ∈ (ulBeamSelectLoop n target info cands).2,
      c.OnBeams ((List.range (numBeams info)).map Nat.cast) := by
  induction cands generalizing info with
  | nil => exact fun c hc => absurd hc List.not_mem_nil
  | cons c cands ih =>
    have hnone := hc c List.mem_cons_self
    have hsame : numBeams (ulBeamSelect n target info c).1 = numBeams info :=
      numBeams_of_shape shape_ulBeamSelect
    intro x hx
    rcases List.mem_cons.mp hx with rfl | hx
    · unfold ulBeamSelect
      dsimp only
      split
      · exact fun hpos => absurd hnone (Int.not_lt.mpr hpos)
      · split
        · exact fun hpos => absurd hnone (Int.not_lt.mpr hpos)
        next i hi =>
          have hlt := idx_lt_of_ulBeamAllocation hi
          rw [numBeams_of_shape (shape_ulBeamAllocation ..)] at hlt
          exact fun _ => List.mem_map.mpr ⟨i, List.mem_range.mpr hlt, rfl⟩
    · have hrest := @ih (ulBeamSelect n target info c).1
        (fun y hy => hc y (List.mem_cons_of_mem c hy)) x hx
      rwa [hsame] at hrest

end BeamSelection

/-! ### The grants of a target slot -/

/-- What the steps of a map in `Option` keep, the map keeps. -/
theorem map_of_mapM {α β γ : Type*} {f : α → Option β} {key : α → γ} {key' : β → γ}
    (hf : ∀ a b, f a = some b → key' b = key a) {l : List α} {l' : List β}
    (h : l.mapM f = some l') : l'.map key' = l.map key := by
  induction l generalizing l' with
  | nil =>
    obtain rfl := Option.some.inj h
    rfl
  | cons a l ih =>
    rw [List.mapM_cons] at h
    obtain ⟨b, hb, h⟩ := Option.bind_eq_some_iff.mp h
    obtain ⟨rest, hrest, h⟩ := Option.bind_eq_some_iff.mp h
    obtain rfl := Option.some.inj h
    rw [List.map_cons, List.map_cons, hf a b hb, ih hrest]

section TargetSlot

variable {env : UlEnv} {ues : ℕ → NrUeInfo} {target : UlTarget} {maxNumUe : ℕ} {c c' : UlCandidate}
  {cands : List UlCandidate} {vrbMap : ℤ → VrbMap} {cell : UlCell} {done : UlScheduled}

theorem collectUlCandidate_beam {i : ℕ} {ue : NrUeInfo}
    (h : collectUlCandidate env target i ue = some c) :
    c.beamIndex = ue.ueBeamIndex ∧ c.allocBeamIdx = -1 := by
  unfold collectUlCandidate at h
  by_cases hactive : (!ue.isActive) = true
  · rw [if_pos hactive] at h
    cases h
  rw [if_neg hactive] at h
  split at h
  · obtain rfl := Option.some.inj h
    exact ⟨rfl, rfl⟩
  · split_ifs at h
    dsimp only at h
    split_ifs at h
    obtain rfl := Option.some.inj h
    exact ⟨rfl, rfl⟩

theorem ulTdaSelect_beam {window : ℕ × ℕ} (h : ulTdaSelect env ues vrbMap window c = some c') :
    (c'.allocBeamIdx, c'.scheduled) = (c.allocBeamIdx, c.scheduled) := by
  unfold ulTdaSelect at h
  by_cases hskipped : c.skipped = true
  · rw [if_pos hskipped] at h
    obtain rfl := Option.some.inj h
    rfl
  rw [if_neg hskipped] at h
  dsimp only at h
  generalize window.1 + getBestUlTda (vrbMap c.allocBeamIdx) env.ulprbbl c.bwpSize
    ((env.ulTda.drop window.1).take window.2) = index at h
  by_cases hretx : c.isRetx = true
  · rw [if_pos hretx] at h
    obtain ⟨orig, -, h⟩ := Option.bind_eq_some_iff.mp h
    by_cases hin : window.1 ≤ ((ues c.ue).schedPusch c.retxHarqPid).timeDomainAllocation ∧
        ((ues c.ue).schedPusch c.retxHarqPid).timeDomainAllocation < window.1 + window.2
    · rw [if_pos hin] at h
      obtain rfl := Option.some.inj h
      rfl
    · rw [if_neg hin] at h
      obtain ⟨best, -, h⟩ := Option.bind_eq_some_iff.mp h
      by_cases hrange : index < 16
      · rw [if_pos hrange] at h
        obtain ⟨needed, -, h⟩ := Option.bind_eq_some_iff.mp h
        split_ifs at h
        · obtain rfl := Option.some.inj h
          rfl
        · obtain rfl := Option.some.inj h
          rfl
      · rw [if_neg hrange] at h
        cases h
  · rw [if_neg hretx] at h
    obtain ⟨best, -, h⟩ := Option.bind_eq_some_iff.mp h
    split_ifs at h
    obtain rfl := Option.some.inj h
    rfl

theorem dispatchUl_length
    {done : (ℕ → NrUeInfo) × (ℤ → VrbMap) × List (UlCandidate × SchedPusch)}
    (h : dispatchUl env target ues vrbMap cands = some done) :
    done.2.2.length = ulScheduledCount cands := by
  induction cands generalizing ues vrbMap done with
  | nil =>
    cases h
    rfl
  | cons c cands ih =>
    rw [dispatchUl] at h
    rw [ulScheduledCount_cons]
    cases hs : c.scheduled with
    | false =>
      rw [if_pos (by rw [hs]; rfl)] at h
      rw [if_neg Bool.false_ne_true, Nat.zero_add]
      exact ih h
    | true =>
      rw [if_neg (by rw [hs]; exact Bool.false_ne_true)] at h
      obtain ⟨sched, -, h⟩ := Option.bind_eq_some_iff.mp h
      obtain ⟨ue, -, h⟩ := Option.bind_eq_some_iff.mp h
      obtain ⟨rest, hrest, h⟩ := Option.bind_eq_some_iff.mp h
      obtain rfl := Option.some.inj h
      rw [if_pos rfl, List.length_cons, ih hrest, Nat.add_comm]

/-- From the choice of time-domain allocations on, every beam gets at most as many grants as its
policy call may give. -/
theorem ulAllocateAndDispatch_dispatched_le {beams : List ℤ} (hmax : 0 < maxNumUe)
    (hun : UlUnscheduled cands) (hbeams : ∀ c ∈ cands, c.OnBeams beams)
    (h : ulAllocateAndDispatch env target maxNumUe cell vrbMap cands = some done) :
    done.dispatched.length ≤ beams.length * maxNumUe := by
  obtain ⟨⟨n, tda⟩, htda, h⟩ := Option.bind_eq_some_iff.mp h
  dsimp only at h
  split_ifs at h with hzero
  · obtain rfl := Option.some.inj h
    exact Nat.zero_le _
  obtain ⟨⟨s', out⟩, halloc, h⟩ := Option.bind_eq_some_iff.mp h
  obtain ⟨dispatched, hdispatch, h⟩ := Option.bind_eq_some_iff.mp h
  obtain rfl := Option.some.inj h
  dsimp only
  rw [dispatchUl_length hdispatch]
  -- neither the time-domain allocation nor the MCS changes the beam or schedules
  have hkeys : (nrUlMcsSelectDefault env cell.ues tda).map
      (fun c => (c.allocBeamIdx, c.scheduled)) = cands.map fun c =>
      (c.allocBeamIdx, c.scheduled) := by
    rw [nrUlMcsSelectDefault, List.map_map]
    obtain ⟨window, -, htda⟩ := Option.bind_eq_some_iff.mp htda
    split_ifs at htda
    · cases htda
      rfl
    · obtain ⟨tda', hmap, htda⟩ := Option.bind_eq_some_iff.mp htda
      cases htda
      exact map_of_mapM (fun _ _ => ulTdaSelect_beam) hmap
  generalize nrUlMcsSelectDefault env cell.ues tda = cands' at hkeys halloc
  have hcands' : ∀ c ∈ env.beamSort cands', c.OnBeams beams ∧ c.scheduled = false := by
    intro c hc
    have hmem : (c.allocBeamIdx, c.scheduled) ∈ cands.map fun c =>
        (c.allocBeamIdx, c.scheduled) := by
      rw [← hkeys]
      exact List.mem_map_of_mem ((env.beamSort_perm _).mem_iff.mp hc)
    obtain ⟨c₀, hc₀, heq⟩ := List.mem_map.mp hmem
    have hidx : c₀.allocBeamIdx = c.allocBeamIdx := congrArg Prod.fst heq
    have hsched : c₀.scheduled = c.scheduled := congrArg Prod.snd heq
    refine ⟨?_, hsched.symm.trans (hun c₀ hc₀)⟩
    have hon := hbeams c₀ hc₀
    rwa [UlCandidate.OnBeams, hidx] at hon
  refine (allocUlBeams_ulScheduledCount_le (fun g hg => unscheduled_of_mem_ulBeamGroups
    (fun c hc => (hcands' c hc).2) hg) hmax halloc).trans (Nat.mul_le_mul_right _ ?_)
  refine length_filter_runs_le (env.beamSort_pairwise cands') fun g hg hcall => ?_
  rw [gotCall, Bool.not_eq_true', List.all_eq_false] at hcall
  obtain ⟨c, hc, hpos⟩ := hcall
  exact ⟨c, hc, (hcands' c (mem_of_mem_runs hg hc)).1
    (Int.not_lt.mp fun hneg => hpos (decide_eq_true hneg))⟩

/-- The candidates of a slot as they are collected: without a beam, and not scheduled. -/
structure FreshCandidates (ues : ℕ → NrUeInfo) (connected : List ℕ) (cands : List UlCandidate) :
    Prop where
  unscheduled : UlUnscheduled cands
  beamless : ∀ c ∈ cands, c.allocBeamIdx < 0
  direction : ∀ c ∈ cands, ∃ i ∈ connected, c.beamIndex = (ues i).ueBeamIndex

theorem freshCandidates_collectUlCandidates (env : UlEnv) (target : UlTarget) (ues : ℕ → NrUeInfo)
    (connected : List ℕ) (n : ℕ) :
    FreshCandidates ues connected ((collectUlCandidates env target ues connected).take n) := by
  have hmem : ∀ c ∈ (collectUlCandidates env target ues connected).take n,
      ∃ i ∈ connected, collectUlCandidate env target i (ues i) = some c := fun c hc =>
    List.mem_filterMap.mp (List.mem_of_mem_take hc)
  refine ⟨fun c hc => ?_, fun c hc => ?_, fun c hc => ?_⟩
  · exact (collectUlCandidates_collected (List.mem_of_mem_take hc)).unscheduled
  · obtain ⟨i, -, hi⟩ := hmem c hc
    rw [(collectUlCandidate_beam hi).2]
    exact Int.negSucc_lt_zero 0
  · obtain ⟨i, hconnected, hi⟩ := hmem c hc
    exact ⟨i, hconnected, (collectUlCandidate_beam hi).1⟩

/-- The candidates in the order in which they get their beams. -/
theorem FreshCandidates.pfSort {connected : List ℕ} (h : FreshCandidates ues connected cands) :
    FreshCandidates ues connected (env.pfSort (nrUlRiTpmiSelectDefault ues cands)) := by
  have hmem : ∀ c ∈ env.pfSort (nrUlRiTpmiSelectDefault ues cands), ∃ c₀ ∈ cands,
      c.allocBeamIdx = c₀.allocBeamIdx ∧ c.beamIndex = c₀.beamIndex ∧
        c.scheduled = c₀.scheduled := by
    intro c hc
    obtain ⟨c₀, hc₀, rfl⟩ := List.mem_map.mp ((env.pfSort_perm _).mem_iff.mp hc)
    exact ⟨c₀, hc₀, rfl, rfl, rfl⟩
  refine ⟨fun c hc => ?_, fun c hc => ?_, fun c hc => ?_⟩
  · obtain ⟨c₀, hc₀, -, -, hs⟩ := hmem c hc
    exact hs.trans (h.unscheduled c₀ hc₀)
  · obtain ⟨c₀, hc₀, hidx, -, -⟩ := hmem c hc
    exact hidx ▸ h.beamless c₀ hc₀
  · obtain ⟨c₀, hc₀, -, hdir, -⟩ := hmem c hc
    exact hdir ▸ h.direction c₀ hc₀

/-- A target slot gets at most as many grants as its policy calls may give, when all beams are among
some. -/
theorem nrUlSchedule_dispatched_le {beams : List ℤ} {connected : List ℕ} (hmax : 0 < maxNumUe)
    (hfresh : FreshCandidates cell.ues connected cands)
    (hbeams : ∀ c ∈ (nrUlBeamSelectDefault env target cell.beamInfo
      (nrUlRiTpmiSelectDefault cell.ues cands)).2, c.OnBeams beams)
    (h : nrUlSchedule env target maxNumUe cell vrbMap cands = some done) :
    done.dispatched.length ≤ beams.length * maxNumUe := by
  unfold nrUlSchedule at h
  dsimp only at h
  split_ifs at h
  · obtain rfl := Option.some.inj h
    exact Nat.zero_le _
  · obtain rfl := Option.some.inj h
    exact Nat.zero_le _
  · refine ulAllocateAndDispatch_dispatched_le hmax (fun c hc => ?_) hbeams h
    -- the selection of beams does not schedule
    have horigin : c.origin ∈ (nrUlBeamSelectDefault env target cell.beamInfo
        (nrUlRiTpmiSelectDefault cell.ues cands)).2.map UlCandidate.origin :=
      List.mem_map_of_mem hc
    rw [nrUlBeamSelectDefault, origins_ulBeamSelectLoop] at horigin
    obtain ⟨c₀, hc₀, heq⟩ := List.mem_map.mp horigin
    have hs : c₀.scheduled = c.scheduled := congrArg UlOrigin.scheduled heq
    exact hs.symm.trans (hfresh.pfSort.unscheduled c₀ hc₀)

/-- A target slot gets at most as many grants from each beam as a policy call may give. -/
theorem nrUlSchedule_dispatched_le_numBeams {connected : List ℕ} (hmax : 0 < maxNumUe)
    (hfresh : FreshCandidates cell.ues connected cands)
    (h : nrUlSchedule env target maxNumUe cell vrbMap cands = some done) :
    done.dispatched.length ≤ numBeams cell.beamInfo * maxNumUe := by
  have hle := nrUlSchedule_dispatched_le hmax hfresh
    (ulBeamSelectLoop_onBeams hfresh.pfSort.beamless) h
  rwa [List.length_map, List.length_range] at hle

/-- A target slot whose UEs have one direction gets no more grants than one policy call may give. -/
theorem nrUlSchedule_dispatched_le_of_one_direction {connected : List ℕ} {beamIndex : ℕ}
    (hmax : 0 < maxNumUe) (hfresh : FreshCandidates cell.ues connected cands)
    (hone : ∀ i ∈ connected, (cell.ues i).ueBeamIndex = beamIndex)
    (h : nrUlSchedule env target maxNumUe cell vrbMap cands = some done) :
    done.dispatched.length ≤ maxNumUe := by
  have hcands : ∀ c ∈ env.pfSort (nrUlRiTpmiSelectDefault cell.ues cands),
      c.beamIndex = beamIndex ∧ c.allocBeamIdx < 0 := by
    intro c hc
    obtain ⟨i, hi, hdir⟩ := hfresh.pfSort.direction c hc
    exact ⟨hdir.trans (hone i hi), hfresh.pfSort.beamless c hc⟩
  obtain ⟨k, hk⟩ := ulBeamSelectLoop_one_beam hcands
  have hle := nrUlSchedule_dispatched_le hmax hfresh hk h
  rwa [List.length_singleton, Nat.one_mul] at hle

theorem ueBeamIndex_postProcess {ue ue' : NrUeInfo} {sched : SchedPusch}
    (h : ue.postProcess env sched = some ue') : ue'.ueBeamIndex = ue.ueBeamIndex := by
  obtain ⟨harqId, -, h⟩ := Option.bind_eq_some_iff.mp h
  obtain ⟨ctrl, -, h⟩ := Option.bind_eq_some_iff.mp h
  obtain rfl := Option.some.inj h
  rfl

theorem ueBeamIndex_dispatchUl
    {done : (ℕ → NrUeInfo) × (ℤ → VrbMap) × List (UlCandidate × SchedPusch)}
    (h : dispatchUl env target ues vrbMap cands = some done) (i : ℕ) :
    (done.1 i).ueBeamIndex = (ues i).ueBeamIndex := by
  induction cands generalizing ues vrbMap done with
  | nil =>
    cases h
    rfl
  | cons c cands ih =>
    rw [dispatchUl] at h
    split_ifs at h
    · exact ih h
    · obtain ⟨sched, -, h⟩ := Option.bind_eq_some_iff.mp h
      obtain ⟨ue, hue, h⟩ := Option.bind_eq_some_iff.mp h
      obtain ⟨rest, hrest, h⟩ := Option.bind_eq_some_iff.mp h
      obtain rfl := Option.some.inj h
      rw [ih hrest]
      by_cases hi : i = c.ue
      · subst hi
        rw [Function.update_self]
        exact ueBeamIndex_postProcess hue
      · rw [Function.update_of_ne hi]

/-- A target slot does not change the shape of the table of beams or the directions of the UEs. -/
theorem nrUlSchedule_frame (h : nrUlSchedule env target maxNumUe cell vrbMap cands = some done) :
    numBeams done.cell.beamInfo = numBeams cell.beamInfo ∧
      ∀ i, (done.cell.ues i).ueBeamIndex = (cell.ues i).ueBeamIndex := by
  unfold nrUlSchedule at h
  dsimp only at h
  split_ifs at h
  · obtain rfl := Option.some.inj h
    exact ⟨rfl, fun _ => rfl⟩
  · obtain rfl := Option.some.inj h
    exact ⟨numBeams_of_shape shape_ulBeamSelectLoop, fun _ => rfl⟩
  obtain ⟨⟨n, tda⟩, -, h⟩ := Option.bind_eq_some_iff.mp h
  dsimp only at h
  split_ifs at h
  · obtain rfl := Option.some.inj h
    exact ⟨numBeams_of_shape shape_ulBeamSelectLoop, fun _ => rfl⟩
  obtain ⟨alloc, -, h⟩ := Option.bind_eq_some_iff.mp h
  obtain ⟨dispatched, hdispatch, h⟩ := Option.bind_eq_some_iff.mp h
  obtain rfl := Option.some.inj h
  exact ⟨numBeams_of_shape (shape_releaseUlBeams.trans shape_ulBeamSelectLoop),
    ueBeamIndex_dispatchUl hdispatch⟩

end TargetSlot

section Rounds

variable {cfg : UlCellConfig} {env : UlEnv} {connected : List ℕ} {current : Fsn}
  {outcomes : ℕ → UlRoundOutcome} {rounds i : ℕ} {s s' : UlPreproc}

/-- What a round does: it dispatches nothing, or it schedules a target slot and pays for its
grants. -/
theorem ulPreprocRound_cases {more : Bool} {out : UlRoundOutcome}
    (h : ulPreprocRound cfg env connected current out s = some (more, s')) :
    (s'.cell = s.cell ∧ s'.dispatched = s.dispatched ∧ s'.maxDci = s.maxDci) ∨
      ∃ target cands done, FreshCandidates s.cell.ues connected cands ∧
        nrUlSchedule env target s.maxDci s.cell out.vrbMap cands = some done ∧
        s'.cell = done.cell ∧ s'.dispatched = s.dispatched ++ done.dispatched ∧
        s'.maxDci = s.maxDci - done.dispatched.length := by
  obtain ⟨next, -, h⟩ := Option.bind_eq_some_iff.mp h
  dsimp only at h
  split_ifs at h
  · cases h
    exact .inl ⟨rfl, rfl, rfl⟩
  obtain ⟨window, -, h⟩ := Option.bind_eq_some_iff.mp h
  dsimp only at h
  split_ifs at h
  · cases h
    exact .inl ⟨rfl, rfl, rfl⟩
  · cases h
    exact .inl ⟨rfl, rfl, rfl⟩
  obtain ⟨done, hdone, h⟩ := Option.bind_eq_some_iff.mp h
  refine .inr ⟨_, _, done, freshCandidates_collectUlCandidates _ _ _ _ _, hdone, ?_⟩
  split_ifs at h with hnone
  · cases h
    exact ⟨rfl, rfl, by rw [hnone.1, Nat.sub_zero]⟩
  · cases h
    exact ⟨rfl, rfl, rfl⟩

/-- What every round keeps, a call keeps. -/
theorem ulPreprocRounds_invariant {I : UlPreproc → Prop}
    (hround : ∀ out s more s', 0 < s.maxDci → I s →
      ulPreprocRound cfg env connected current out s = some (more, s') → I s')
    (h : I s) (hrun : ulPreprocRounds cfg env connected current outcomes rounds i s = some s') :
    I s' := by
  induction rounds generalizing i s with
  | zero =>
    obtain rfl := Option.some.inj hrun
    exact h
  | succ rounds ih =>
    rw [ulPreprocRounds] at hrun
    split_ifs at hrun with hempty
    · obtain rfl := Option.some.inj hrun
      exact h
    · obtain ⟨⟨more, t⟩, hstep, hrun⟩ := Option.bind_eq_some_iff.mp hrun
      have ht := hround _ _ _ _ (Nat.pos_of_ne_zero hempty) h hstep
      dsimp only at hrun
      split_ifs at hrun
      · exact ih ht hrun
      · obtain rfl := Option.some.inj hrun
        exact ht

end Rounds

end LlmHric.Mac
