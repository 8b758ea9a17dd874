import Mathlib.Data.List.Pairwise
import Mathlib.Data.List.Perm.Basic
import Mathlib.Tactic.Common
import Mathlib.Tactic.SplitIfs

/-! With several beams in a period, `nr_dl_schedule` reserves an entry of the beam table for the
direction of every candidate before it knows which candidates will be scheduled. Candidates of one
direction share an entry, and the first of them is marked as having claimed it. After the resource
blocks are handed out, the reservations of rejected candidates are released; candidates that were
dropped when their time-domain allocation was chosen are left out, and a slot without any candidate
left returns before.

The outcomes of the time-domain selection and of the resource-block allocation are parameters,
as are the orders the two sorts leave. -/

namespace LlmHric.Mac

/-! ### The beam table -/

/-- `NR_beam_info_t`. -/
structure NrBeamInfo where
  beamsPerPeriod : ℕ
  beamDuration : ℕ
  beamAllocationSize : ℕ
  /-- The direction that is set for a beam in a period; `none` stands for -1. -/
  beamAllocation : ℕ → ℕ → Option ℕ

/-- `NR_beam_alloc_t`; an index `none` stands for -1. -/
structure NrBeamAlloc where
  newBeam : Bool
  idx : Option ℕ

namespace NrBeamInfo

/-- `get_beam_index`. -/
def getBeamIndex (info : NrBeamInfo) (frame slot slotsPerFrame : ℕ) : ℕ :=
  (frame * slotsPerFrame + slot) / info.beamDuration % info.beamAllocationSize

/-- The entries of a period. -/
def column (info : NrBeamInfo) (index : ℕ) : ℕ → Option ℕ := fun i => info.beamAllocation i index

def write (info : NrBeamInfo) (i index : ℕ) (entry : Option ℕ) : NrBeamInfo :=
  { info with
    beamAllocation := fun j k => if j = i ∧ k = index then entry else info.beamAllocation j k }

theorem column_write (info : NrBeamInfo) (i index : ℕ) (entry : Option ℕ) :
    (info.write i index entry).column index = Function.update (info.column index) i entry := by
  funext j
  by_cases hj : j = i
  · subst hj
    simp [column, write]
  · simp [column, write, hj]

@[simp] theorem beamsPerPeriod_write (info : NrBeamInfo) (i index : ℕ) (entry : Option ℕ) :
    (info.write i index entry).beamsPerPeriod = info.beamsPerPeriod := rfl

end NrBeamInfo

/-- The loop of `beam_allocation_procedure` from entry `i` on, with `remaining` entries to go. -/
def beamAllocationFrom (info : NrBeamInfo) (index beamIndex : ℕ) :
    ℕ → ℕ → NrBeamInfo × NrBeamAlloc
  | 0, _ => (info, ⟨false, none⟩)
  | remaining + 1, i =>
    match info.column index i with
    | none => (info.write i index (some beamIndex), ⟨true, some i⟩)
    | some beam =>
      if beam = beamIndex then (info, ⟨false, some i⟩)
      else beamAllocationFrom info index beamIndex remaining (i + 1)

/-- `beam_allocation_procedure`, with beams. -/
def beamAllocationProcedure (info : NrBeamInfo) (index beamIndex : ℕ) :
    NrBeamInfo × NrBeamAlloc :=
  beamAllocationFrom info index beamIndex info.beamsPerPeriod 0

/-- `reset_beam_status`: every entry of the period with the direction is released. -/
def resetBeamStatus (info : NrBeamInfo) (index beamIndex : ℕ) (newBeam : Bool) : NrBeamInfo :=
  if !newBeam then info
  else
    { info with
      beamAllocation := fun i k =>
        if k = index ∧ i < info.beamsPerPeriod ∧ info.beamAllocation i k = some beamIndex then none
        else info.beamAllocation i k }

/-- The entry is set to another direction. -/
def Taken (column : ℕ → Option ℕ) (beamIndex i : ℕ) : Prop :=
  column i ≠ none ∧ column i ≠ some beamIndex

/-- What the search for an entry does: share an entry, claim a free one, or find none. -/
inductive Claim (info : NrBeamInfo) (index beamIndex : ℕ) : NrBeamInfo × NrBeamAlloc → Prop
  | shared (i : ℕ) : i < info.beamsPerPeriod →
      (∀ j < i, Taken (info.column index) beamIndex j) → info.column index i = some beamIndex →
      Claim info index beamIndex (info, ⟨false, some i⟩)
  | fresh (i : ℕ) : i < info.beamsPerPeriod →
      (∀ j < i, Taken (info.column index) beamIndex j) → info.column index i = none →
      Claim info index beamIndex (info.write i index (some beamIndex), ⟨true, some i⟩)
  | full : Claim info index beamIndex (info, ⟨false, none⟩)

theorem beamAllocationFrom_claim {info : NrBeamInfo} {index beamIndex remaining i : ℕ}
    (hi : i + remaining = info.beamsPerPeriod)
    (htaken : ∀ j < i, Taken (info.column index) beamIndex j) :
    Claim info index beamIndex (beamAllocationFrom info index beamIndex remaining i) := by
  induction remaining generalizing i with
  | zero => exact .full
  | succ remaining ih =>
    rw [beamAllocationFrom]
    split
    next hfree => exact .fresh i (by omega) htaken hfree
    next beam hbeam =>
      split_ifs with hsame
      · exact .shared i (by omega) htaken (hsame ▸ hbeam)
      · refine ih (by omega) fun j hj => ?_
        rcases Nat.lt_succ_iff_lt_or_eq.mp hj with hj | rfl
        · exact htaken j hj
        · rw [Taken, hbeam]
          exact ⟨Option.some_ne_none beam, fun h => hsame (Option.some_inj.mp h)⟩

theorem beamAllocationProcedure_claim (info : NrBeamInfo) (index beamIndex : ℕ) :
    Claim info index beamIndex (beamAllocationProcedure info index beamIndex) :=
  beamAllocationFrom_claim (Nat.zero_add _) fun _ hj => absurd hj (Nat.not_lt_zero _)

/-! ### The slot -/

/-- A connected UE, with the direction of its beam. -/
structure BeamUe where
  rnti : ℕ
  ueBeamIndex : ℕ
  deriving DecidableEq

/-- A scheduling candidate, with the fields that decide about its beam. -/
structure BeamCandidate where
  rnti : ℕ
  allocBeamDir : ℕ
  allocBeamIdx : ℕ
  allocNewBeam : Bool
  skipped : Bool
  scheduled : Bool
  deriving DecidableEq

/-- What is decided outside: the two sorts, and which candidates get a valid time-domain
allocation and resource blocks. -/
structure BeamEnv where
  pfSort : List BeamCandidate → List BeamCandidate
  pfSort_perm (cands : List BeamCandidate) : (pfSort cands).Perm cands
  beamSort : List BeamCandidate → List BeamCandidate
  beamSort_perm (cands : List BeamCandidate) : (beamSort cands).Perm cands
  validTda : BeamCandidate → Bool
  allocated : BeamCandidate → Bool

/-- `collect_dl_candidates`. -/
def collectDlCandidates (ues : List BeamUe) : List BeamCandidate :=
  ues.map fun ue => ⟨ue.rnti, ue.ueBeamIndex, 0, false, false, false⟩

/-- The loop of `nr_dl_beam_select_default` over the candidates in PF order. -/
def beamSelectLoop (index : ℕ) :
    NrBeamInfo → List BeamCandidate → NrBeamInfo × List BeamCandidate
  | info, [] => (info, [])
  | info, cand :: order =>
    let beam := beamAllocationProcedure info index cand.allocBeamDir
    let cand :=
      match beam.2.idx with
      | none => { cand with skipped := true }
      | some i => { cand with allocBeamIdx := i, allocNewBeam := beam.2.newBeam }
    let rest := beamSelectLoop index beam.1 order
    (rest.1, cand :: rest.2)

/-- `nr_dl_beam_select_default`, for candidates none of which is dropped yet. -/
def nrDlBeamSelectDefault (env : BeamEnv) (info : NrBeamInfo) (index : ℕ)
    (cands : List BeamCandidate) : NrBeamInfo × List BeamCandidate :=
  beamSelectLoop index info (env.pfSort cands)

/-- `nr_dl_tda_select_default`: candidates without a valid allocation are dropped. -/
def nrDlTdaSelectDefault (env : BeamEnv) (cands : List BeamCandidate) : List BeamCandidate :=
  cands.map fun cand =>
    if cand.skipped || env.validTda cand then cand else { cand with skipped := true }

/-- The calls of `dl_rb_alloc`, which look at candidates that were not dropped only. -/
def dlRbAlloc (env : BeamEnv) (cands : List BeamCandidate) : List BeamCandidate :=
  cands.map fun cand =>
    if !cand.skipped && env.allocated cand then { cand with scheduled := true } else cand

/-- The loop of `nr_dl_schedule` that releases the beams of rejected candidates. -/
def releaseBeams (index : ℕ) : NrBeamInfo → List BeamCandidate → NrBeamInfo
  | info, [] => info
  | info, cand :: cands =>
    if !cand.scheduled && !cand.skipped then
      releaseBeams index (resetBeamStatus info index cand.allocBeamDir cand.allocNewBeam) cands
    else releaseBeams index info cands

/-- `nr_dl_schedule` up to the release of the beams: the table and the candidates. The counts
`n_beam_valid` and `n_valid` are those of the candidates that are not dropped. -/
def nrDlScheduleBeams (env : BeamEnv) (info : NrBeamInfo) (frame slot slotsPerFrame : ℕ)
    (ues : List BeamUe) : NrBeamInfo × List BeamCandidate :=
  let index := info.getBeamIndex frame slot slotsPerFrame
  let cands := collectDlCandidates ues
  if cands.length = 0 then (info, cands)
  else
    let beams := if info.beamsPerPeriod > 1 then nrDlBeamSelectDefault env info index cands
      else (info, cands)
    if info.beamsPerPeriod > 1 ∧ beams.2.countP (fun c => !c.skipped) = 0 then beams
    else
      let tda := nrDlTdaSelectDefault env beams.2
      if tda.countP (fun c => !c.skipped) = 0 then (beams.1, tda)
      else
        let cands := dlRbAlloc env (env.beamSort tda)
        (releaseBeams index beams.1 cands, cands)

/-! ### The beam selection -/

/-- The beams of the candidates after the beam selection: the entries on entry are kept, every new
one was claimed by one candidate, and the candidates stand on the first entry of their direction. -/
structure Selected (before : ℕ → Option ℕ) (beams : ℕ) (column : ℕ → Option ℕ)
    (cands : List BeamCandidate) : Prop where
  kept : ∀ e, before e ≠ none → column e = before e
  claimed : ∀ e d, before e = none → column e = some d →
    ∃ x ∈ cands, x.allocNewBeam = true ∧ x.allocBeamIdx = e ∧ x.allocBeamDir = d
  stands : ∀ c ∈ cands, c.skipped = false →
    c.allocBeamIdx < beams ∧ column c.allocBeamIdx = some c.allocBeamDir
  first : ∀ c ∈ cands, c.skipped = false →
    ∀ j < c.allocBeamIdx, Taken column c.allocBeamDir j
  fresh : ∀ x ∈ cands, x.allocNewBeam = true → x.skipped = false ∧ before x.allocBeamIdx = none
  once : cands.Pairwise fun x y =>
    x.allocNewBeam = true → y.allocNewBeam = true → x.allocBeamIdx ≠ y.allocBeamIdx
  idle : ∀ c ∈ cands, c.scheduled = false

namespace Selected

variable {before column : ℕ → Option ℕ} {beams : ℕ} {cands : List BeamCandidate}

theorem nil (before : ℕ → Option ℕ) (beams : ℕ) : Selected before beams before [] where
  kept := fun _ _ => rfl
  claimed := fun e d hfree hd => by simp [hfree] at hd
  stands := fun c hc => absurd hc List.not_mem_nil
  first := fun c hc => absurd hc List.not_mem_nil
  fresh := fun c hc => absurd hc List.not_mem_nil
  once := .nil
  idle := fun c hc => absurd hc List.not_mem_nil

/-- A candidate that claims nothing, and stands on the first entry of its direction unless it is
dropped. -/
theorem share (h : Selected before beams column cands) {c : BeamCandidate}
    (hstands : c.skipped = false → c.allocBeamIdx < beams ∧
      column c.allocBeamIdx = some c.allocBeamDir)
    (hfirst : c.skipped = false → ∀ j < c.allocBeamIdx, Taken column c.allocBeamDir j)
    (hnew : c.allocNewBeam = false) (hidle : c.scheduled = false) :
    Selected before beams column (cands ++ [c]) where
  kept := h.kept
  claimed := by
    intro e d hfree hd
    obtain ⟨x, hx, hrest⟩ := h.claimed e d hfree hd
    exact ⟨x, List.mem_append_left _ hx, hrest⟩
  stands := List.forall_mem_append.mpr ⟨h.stands, List.forall_mem_singleton.mpr hstands⟩
  first := List.forall_mem_append.mpr ⟨h.first, List.forall_mem_singleton.mpr hfirst⟩
  fresh := List.forall_mem_append.mpr ⟨h.fresh, List.forall_mem_singleton.mpr fun hx =>
    absurd (hnew.symm.trans hx) Bool.false_ne_true⟩
  once := List.pairwise_append.mpr ⟨h.once, List.pairwise_singleton _ _, fun x _ y hy _ hnewy =>
    absurd (hnew.symm.trans (List.mem_singleton.mp hy ▸ hnewy)) Bool.false_ne_true⟩
  idle := List.forall_mem_append.mpr ⟨h.idle, List.forall_mem_singleton.mpr hidle⟩

/-- A candidate that claims the first free entry. -/
theorem claim (h : Selected before beams column cands) {c : BeamCandidate}
    (hlt : c.allocBeamIdx < beams) (hfree : column c.allocBeamIdx = none)
    (hfirst : ∀ j < c.allocBeamIdx, Taken column c.allocBeamDir j)
    (hnew : c.allocNewBeam = true) (hskip : c.skipped = false) (hidle : c.scheduled = false) :
    Selected before beams (Function.update column c.allocBeamIdx (some c.allocBeamDir))
      (cands ++ [c]) := by
  have hother : ∀ {i}, column i ≠ none →
      Function.update column c.allocBeamIdx (some c.allocBeamDir) i = column i := by
    intro i hi
    refine Function.update_of_ne (fun heq => hi ?_) _ _
    rw [heq, hfree]
  have hset : ∀ {x}, x ∈ cands → x.skipped = false → column x.allocBeamIdx ≠ none := by
    intro x hx hskipx
    rw [(h.stands x hx hskipx).2]
    exact Option.some_ne_none _
  have hbefore : before c.allocBeamIdx = none := by
    by_contra hset
    exact hset ((h.kept _ hset).symm.trans hfree)
  constructor
  case kept =>
    intro e he
    have hkept := h.kept e he
    rw [hother (by rwa [hkept]), hkept]
  case claimed =>
    intro e d hfree hd
    by_cases he : e = c.allocBeamIdx
    · subst he
      rw [Function.update_self, Option.some_inj] at hd
      exact ⟨c, List.mem_append_right _ List.mem_cons_self, hnew, rfl, hd⟩
    · rw [Function.update_of_ne he] at hd
      obtain ⟨x, hx, hrest⟩ := h.claimed e d hfree hd
      exact ⟨x, List.mem_append_left _ hx, hrest⟩
  case stands =>
    refine List.forall_mem_append.mpr ⟨fun x hx hskipx => ?_, List.forall_mem_singleton.mpr fun _ =>
      ⟨hlt, Function.update_self _ _ _⟩⟩
    rw [hother (hset hx hskipx)]
    exact h.stands x hx hskipx
  case first =>
    refine List.forall_mem_append.mpr ⟨fun x hx hskipx j hj => ?_,
      List.forall_mem_singleton.mpr fun _ j hj => ?_⟩
    · have htaken := h.first x hx hskipx j hj
      rw [Taken, hother htaken.1]
      exact htaken
    · have htaken := hfirst j hj
      rw [Taken, hother htaken.1]
      exact htaken
  case fresh =>
    exact List.forall_mem_append.mpr ⟨h.fresh, List.forall_mem_singleton.mpr fun _ =>
      ⟨hskip, hbefore⟩⟩
  case once =>
    refine List.pairwise_append.mpr ⟨h.once, List.pairwise_singleton _ _,
      fun x hx y hy hnewx _ heq => ?_⟩
    -- an entry that was claimed before is not free
    rw [List.mem_singleton.mp hy] at heq
    exact hset hx (h.fresh x hx hnewx).1 (heq ▸ hfree)
  case idle => exact List.forall_mem_append.mpr ⟨h.idle, List.forall_mem_singleton.mpr hidle⟩

end Selected

/-- A candidate as it is collected: on no beam and not dropped. -/
structure BeamCandidate.Collected (c : BeamCandidate) : Prop where
  newBeam : c.allocNewBeam = false
  skipped : c.skipped = false
  scheduled : c.scheduled = false

/-- The beam selection keeps what it says about the candidates it has seen. -/
theorem beamSelectLoop_selected {before : ℕ → Option ℕ} {index : ℕ} {info : NrBeamInfo}
    {order seen : List BeamCandidate} (hcollected : ∀ c ∈ order, c.Collected)
    (h : Selected before info.beamsPerPeriod (info.column index) seen) :
    Selected before info.beamsPerPeriod ((beamSelectLoop index info order).1.column index)
      (seen ++ (beamSelectLoop index info order).2) := by
  induction order generalizing info seen with
  | nil =>
    rw [beamSelectLoop, List.append_nil]
    exact h
  | cons cand order ih =>
    have hcand := hcollected cand List.mem_cons_self
    have hrest : ∀ c ∈ order, c.Collected := fun c hc => hcollected c (List.mem_cons_of_mem _ hc)
    have hclaim := beamAllocationProcedure_claim info index cand.allocBeamDir
    rw [beamSelectLoop]
    generalize beamAllocationProcedure info index cand.allocBeamDir = beam at hclaim ⊢
    dsimp only
    rw [List.append_cons]
    cases hclaim with
    | shared i hlt hfirst hbeam =>
      exact ih hrest (h.share (fun _ => ⟨hlt, hbeam⟩) (fun _ => hfirst) rfl hcand.scheduled)
    | fresh i hlt hfirst hfree =>
      have hnext : Selected before (info.write i index (some cand.allocBeamDir)).beamsPerPeriod
          ((info.write i index (some cand.allocBeamDir)).column index)
          (seen ++ [{ cand with allocBeamIdx := i, allocNewBeam := true }]) := by
        rw [NrBeamInfo.column_write]
        exact h.claim (c := { cand with allocBeamIdx := i, allocNewBeam := true }) hlt hfree hfirst
          rfl hcand.skipped hcand.scheduled
      exact ih hrest hnext
    | full =>
      exact ih hrest (h.share (fun hskip => absurd hskip (by simp))
        (fun hskip => absurd hskip (by simp)) hcand.newBeam hcand.scheduled)

theorem collected_collectDlCandidates {ues : List BeamUe} {c : BeamCandidate}
    (hc : c ∈ collectDlCandidates ues) : c.Collected := by
  obtain ⟨ue, -, rfl⟩ := List.mem_map.mp hc
  exact ⟨rfl, rfl, rfl⟩

theorem selected_nrDlBeamSelectDefault (env : BeamEnv) (info : NrBeamInfo) (index : ℕ)
    (ues : List BeamUe) :
    Selected (info.column index) info.beamsPerPeriod
      ((nrDlBeamSelectDefault env info index (collectDlCandidates ues)).1.column index)
      (nrDlBeamSelectDefault env info index (collectDlCandidates ues)).2 := by
  have hcollected : ∀ c ∈ env.pfSort (collectDlCandidates ues), c.Collected :=
    fun c hc => collected_collectDlCandidates ((env.pfSort_perm _).mem_iff.mp hc)
  have h := beamSelectLoop_selected hcollected
    (Selected.nil (info.column index) info.beamsPerPeriod)
  rwa [List.nil_append] at h

/-- The candidate is neither scheduled nor dropped, and it has claimed its entry. -/
structure BeamCandidate.Releases (c : BeamCandidate) : Prop where
  scheduled : c.scheduled = false
  skipped : c.skipped = false
  newBeam : c.allocNewBeam = true

theorem beamsPerPeriod_resetBeamStatus (info : NrBeamInfo) (index beamIndex : ℕ) (newBeam : Bool) :
    (resetBeamStatus info index beamIndex newBeam).beamsPerPeriod = info.beamsPerPeriod := by
  unfold resetBeamStatus
  split_ifs
  · rfl
  · rfl

theorem resetBeamStatus_column {info : NrBeamInfo} {index beamIndex e d : ℕ} {newBeam : Bool}
    (he : e < info.beamsPerPeriod) :
    (resetBeamStatus info index beamIndex newBeam).column index e = some d ↔
      info.column index e = some d ∧ (newBeam = true → beamIndex ≠ d) := by
  unfold resetBeamStatus
  cases newBeam with
  | false => simp
  | true =>
    simp only [Bool.not_true, Bool.false_eq_true, if_false, NrBeamInfo.column, he, true_and,
      forall_true_left]
    split_ifs with hsame
    · simp only [hsame, Option.some_inj, false_iff, not_and, not_not]
      exact id
    · refine ⟨fun hd => ⟨hd, fun heq => hsame (heq ▸ hd)⟩, fun hd => hd.1⟩

/-- An entry keeps its direction unless a candidate of that direction releases it. -/
theorem releaseBeams_column {info : NrBeamInfo} {index e d : ℕ} {cands : List BeamCandidate}
    (he : e < info.beamsPerPeriod) :
    (releaseBeams index info cands).column index e = some d ↔
      info.column index e = some d ∧ ∀ x ∈ cands, x.Releases → x.allocBeamDir ≠ d := by
  induction cands generalizing info with
  | nil => simp [releaseBeams]
  | cons c cands ih =>
    rw [releaseBeams, List.forall_mem_cons]
    split_ifs with hrelease
    · simp only [Bool.and_eq_true, Bool.not_eq_true'] at hrelease
      rw [ih (by rwa [beamsPerPeriod_resetBeamStatus]), resetBeamStatus_column he, and_assoc]
      have hiff : (c.allocNewBeam = true → c.allocBeamDir ≠ d) ↔
          (c.Releases → c.allocBeamDir ≠ d) :=
        ⟨fun h hc => h hc.newBeam, fun h hnew => h ⟨hrelease.1, hrelease.2, hnew⟩⟩
      rw [hiff]
    · have hnot : c.Releases → c.allocBeamDir ≠ d := fun hc =>
        absurd (by simp [hc.scheduled, hc.skipped]) hrelease
      rw [ih he]
      exact and_congr_right fun _ => ⟨fun h => ⟨hnot, h⟩, fun h => h.2⟩

/-! ### The outcome of a slot -/

/-- The candidate gets a time-domain allocation and resource blocks. -/
def BeamEnv.Serves (env : BeamEnv) (c : BeamCandidate) : Prop :=
  c.skipped = false ∧ env.validTda c = true ∧ env.allocated c = true

/-- The candidate gets a time-domain allocation but no resource blocks. -/
def BeamEnv.Rejects (env : BeamEnv) (c : BeamCandidate) : Prop :=
  c.skipped = false ∧ env.validTda c = true ∧ env.allocated c = false

section Outcome

variable (env : BeamEnv)

/-- A candidate after the selection of its time-domain allocation. -/
def BeamEnv.afterTda (c : BeamCandidate) : BeamCandidate :=
  if c.skipped || env.validTda c then c else { c with skipped := true }

/-- A candidate after the resource blocks are handed out. -/
def BeamEnv.afterRbAlloc (c : BeamCandidate) : BeamCandidate :=
  if !c.skipped && env.allocated c then { c with scheduled := true } else c

variable {env} {c : BeamCandidate}

theorem afterTda_skipped : (env.afterTda c).skipped = false ↔
    c.skipped = false ∧ env.validTda c = true := by
  unfold BeamEnv.afterTda
  cases hskip : c.skipped with
  | true => simp [hskip]
  | false =>
    cases hvalid : env.validTda c with
    | true => simp [hskip]
    | false => simp

theorem afterTda_eq (h : env.validTda c = true) : env.afterTda c = c := by
  simp [BeamEnv.afterTda, h]

theorem outcome_beam : (env.afterRbAlloc (env.afterTda c)).allocBeamIdx = c.allocBeamIdx ∧
    (env.afterRbAlloc (env.afterTda c)).allocBeamDir = c.allocBeamDir ∧
    (env.afterRbAlloc (env.afterTda c)).allocNewBeam = c.allocNewBeam := by
  unfold BeamEnv.afterRbAlloc BeamEnv.afterTda
  split_ifs
  · exact ⟨rfl, rfl, rfl⟩
  · exact ⟨rfl, rfl, rfl⟩
  · exact ⟨rfl, rfl, rfl⟩
  · exact ⟨rfl, rfl, rfl⟩

/-- A candidate that is dropped is left alone by the resource-block allocation. -/
theorem outcome_of_dropped (h : ¬ (c.skipped = false ∧ env.validTda c = true)) :
    (env.afterRbAlloc (env.afterTda c)).skipped = true ∧
      (env.afterRbAlloc (env.afterTda c)).scheduled = c.scheduled := by
  have hskip : (env.afterTda c).skipped = true := by
    rw [← afterTda_skipped, Bool.not_eq_false] at h
    exact h
  have hsame : env.afterRbAlloc (env.afterTda c) = env.afterTda c := by
    simp [BeamEnv.afterRbAlloc, hskip]
  rw [hsame]
  refine ⟨hskip, ?_⟩
  unfold BeamEnv.afterTda
  split_ifs
  · rfl
  · rfl

theorem outcome_scheduled (hidle : c.scheduled = false) :
    (env.afterRbAlloc (env.afterTda c)).scheduled = true ↔ env.Serves c := by
  by_cases hlive : c.skipped = false ∧ env.validTda c = true
  · rw [afterTda_eq hlive.2]
    cases halloc : env.allocated c with
    | true => simp [BeamEnv.afterRbAlloc, BeamEnv.Serves, hlive, halloc]
    | false => simp [BeamEnv.afterRbAlloc, BeamEnv.Serves, halloc, hidle]
  · rw [(outcome_of_dropped hlive).2, hidle]
    exact ⟨fun h => absurd h Bool.false_ne_true, fun h => absurd ⟨h.1, h.2.1⟩ hlive⟩

theorem outcome_releases (hidle : c.scheduled = false) :
    (env.afterRbAlloc (env.afterTda c)).Releases ↔ env.Rejects c ∧ c.allocNewBeam = true := by
  by_cases hlive : c.skipped = false ∧ env.validTda c = true
  · rw [afterTda_eq hlive.2]
    cases halloc : env.allocated c with
    | true =>
      have hsched : (env.afterRbAlloc c).scheduled = true := by
        simp [BeamEnv.afterRbAlloc, hlive, halloc]
      refine ⟨fun h => absurd (h.scheduled.symm.trans hsched) Bool.false_ne_true, fun h => ?_⟩
      exact absurd (h.1.2.2.symm.trans halloc) Bool.false_ne_true
    | false =>
      have hsame : env.afterRbAlloc c = c := by simp [BeamEnv.afterRbAlloc, halloc]
      rw [hsame]
      exact ⟨fun h => ⟨⟨hlive.1, hlive.2, halloc⟩, h.newBeam⟩, fun h => ⟨hidle, hlive.1, h.2⟩⟩
  · refine ⟨fun h => ?_, fun h => absurd ⟨h.1.1, h.1.2.1⟩ hlive⟩
    exact absurd (h.skipped.symm.trans (outcome_of_dropped hlive).1) Bool.false_ne_true

/-- The candidates after the policies are those of the beam selection with their outcomes. -/
theorem mem_dlRbAlloc {cands : List BeamCandidate} {a : BeamCandidate} :
    a ∈ dlRbAlloc env (env.beamSort (nrDlTdaSelectDefault env cands)) ↔
      ∃ c ∈ cands, env.afterRbAlloc (env.afterTda c) = a := by
  unfold dlRbAlloc nrDlTdaSelectDefault
  rw [List.mem_map]
  constructor
  · rintro ⟨b, hb, rfl⟩
    obtain ⟨c, hc, rfl⟩ := List.mem_map.mp ((env.beamSort_perm _).mem_iff.mp hb)
    exact ⟨c, hc, rfl⟩
  · rintro ⟨c, hc, rfl⟩
    exact ⟨env.afterTda c, (env.beamSort_perm _).mem_iff.mpr (List.mem_map.mpr ⟨c, hc, rfl⟩), rfl⟩

end Outcome

section Slot

variable {env : BeamEnv} {info : NrBeamInfo} {frame slot slotsPerFrame : ℕ} {ues : List BeamUe}

/-- The table and the candidates after the beam selection of a slot. -/
def beamsSelected (env : BeamEnv) (info : NrBeamInfo) (frame slot slotsPerFrame : ℕ)
    (ues : List BeamUe) : NrBeamInfo × List BeamCandidate :=
  nrDlBeamSelectDefault env info (info.getBeamIndex frame slot slotsPerFrame)
    (collectDlCandidates ues)

/-- How a slot ends: early, with every candidate dropped, or with the release of the beams. -/
theorem nrDlScheduleBeams_cases (hbeams : 2 ≤ info.beamsPerPeriod) :
    ((∀ c ∈ (beamsSelected env info frame slot slotsPerFrame ues).2,
        ¬ (c.skipped = false ∧ env.validTda c = true)) ∧
      (nrDlScheduleBeams env info frame slot slotsPerFrame ues).1 =
        (beamsSelected env info frame slot slotsPerFrame ues).1 ∧
      ∀ a ∈ (nrDlScheduleBeams env info frame slot slotsPerFrame ues).2, a.scheduled = false) ∨
    nrDlScheduleBeams env info frame slot slotsPerFrame ues =
      (releaseBeams (info.getBeamIndex frame slot slotsPerFrame)
          (beamsSelected env info frame slot slotsPerFrame ues).1
          (dlRbAlloc env (env.beamSort (nrDlTdaSelectDefault env
            (beamsSelected env info frame slot slotsPerFrame ues).2))),
        dlRbAlloc env (env.beamSort (nrDlTdaSelectDefault env
          (beamsSelected env info frame slot slotsPerFrame ues).2))) := by
  have hidle : ∀ c ∈ (beamsSelected env info frame slot slotsPerFrame ues).2,
      c.scheduled = false := (selected_nrDlBeamSelectDefault env info _ ues).idle
  have hmany : info.beamsPerPeriod > 1 := hbeams
  unfold nrDlScheduleBeams
  simp only [if_pos hmany]
  split_ifs with hempty hnone hvalid
  · -- no candidates
    have hnil : beamsSelected env info frame slot slotsPerFrame ues = (info, []) := by
      have hsort : env.pfSort [] = [] := List.perm_nil.mp (env.pfSort_perm [])
      rw [beamsSelected, nrDlBeamSelectDefault, List.length_eq_zero_iff.mp hempty, hsort]
      rfl
    rw [hnil, List.length_eq_zero_iff.mp hempty]
    exact .inl ⟨fun c hc => absurd hc List.not_mem_nil, rfl,
      fun c hc => absurd hc List.not_mem_nil⟩
  · -- no candidate got a beam
    refine .inl ⟨fun c hc hlive => ?_, rfl, hidle⟩
    have hskip := List.countP_eq_zero.mp hnone.2 c hc
    simp [hlive.1] at hskip
  · -- no candidate has a valid time-domain allocation
    refine .inl ⟨fun c hc hlive => ?_, rfl, fun a ha => ?_⟩
    · have hskip := List.countP_eq_zero.mp hvalid (env.afterTda c)
        (List.mem_map.mpr ⟨c, hc, rfl⟩)
      rw [afterTda_skipped.mpr hlive] at hskip
      exact hskip rfl
    · obtain ⟨c, hc, rfl⟩ := List.mem_map.mp ha
      have hsame := hidle c hc
      split_ifs
      · exact hsame
      · exact hsame
  · exact .inr rfl

theorem beamsPerPeriod_beamSelectLoop (index : ℕ) (info : NrBeamInfo)
    (order : List BeamCandidate) :
    (beamSelectLoop index info order).1.beamsPerPeriod = info.beamsPerPeriod := by
  induction order generalizing info with
  | nil => rfl
  | cons cand order ih =>
    rw [beamSelectLoop, ih]
    have hclaim := beamAllocationProcedure_claim info index cand.allocBeamDir
    generalize beamAllocationProcedure info index cand.allocBeamDir = beam at hclaim ⊢
    cases hclaim with
    | shared => rfl
    | fresh => rfl
    | full => rfl

/-- An entry keeps the direction of the beam selection unless a candidate that claimed it is
rejected. -/
theorem nrDlScheduleBeams_column (hbeams : 2 ≤ info.beamsPerPeriod) {e : ℕ}
    (he : e < info.beamsPerPeriod) {d : ℕ} :
    (nrDlScheduleBeams env info frame slot slotsPerFrame ues).1.column
        (info.getBeamIndex frame slot slotsPerFrame) e = some d ↔
      (beamsSelected env info frame slot slotsPerFrame ues).1.column
          (info.getBeamIndex frame slot slotsPerFrame) e = some d ∧
        ∀ x ∈ (beamsSelected env info frame slot slotsPerFrame ues).2, env.Rejects x →
          x.allocNewBeam = true → x.allocBeamDir ≠ d := by
  have hidle := (selected_nrDlBeamSelectDefault env info
    (info.getBeamIndex frame slot slotsPerFrame) ues).idle
  rcases nrDlScheduleBeams_cases hbeams with ⟨hdropped, hsame, -⟩ | hresult
  · rw [hsame]
    exact ⟨fun h => ⟨h, fun x hx hrej => absurd ⟨hrej.1, hrej.2.1⟩ (hdropped x hx)⟩, fun h => h.1⟩
  · rw [hresult, releaseBeams_column (by rwa [beamsSelected, nrDlBeamSelectDefault,
      beamsPerPeriod_beamSelectLoop])]
    refine and_congr_right fun _ => ⟨fun h x hx hrej hnew => ?_, fun h a ha hrel => ?_⟩
    · have hout := h _ (mem_dlRbAlloc.mpr ⟨x, hx, rfl⟩)
        ((outcome_releases (hidle x hx)).mpr ⟨hrej, hnew⟩)
      rwa [outcome_beam.2.1] at hout
    · obtain ⟨x, hx, rfl⟩ := mem_dlRbAlloc.mp ha
      obtain ⟨hrej, hnew⟩ := (outcome_releases (hidle x hx)).mp hrel
      rw [outcome_beam.2.1]
      exact h x hx hrej hnew

/-- The scheduled candidates are those that are served, on the beam of the selection. -/
theorem exists_scheduled_iff (hbeams : 2 ≤ info.beamsPerPeriod) {i d : ℕ} :
    (∃ a ∈ (nrDlScheduleBeams env info frame slot slotsPerFrame ues).2,
        a.scheduled = true ∧ a.allocBeamIdx = i ∧ a.allocBeamDir = d) ↔
      ∃ c ∈ (beamsSelected env info frame slot slotsPerFrame ues).2,
        env.Serves c ∧ c.allocBeamIdx = i ∧ c.allocBeamDir = d := by
  have hidle := (selected_nrDlBeamSelectDefault env info
    (info.getBeamIndex frame slot slotsPerFrame) ues).idle
  rcases nrDlScheduleBeams_cases hbeams with ⟨hdropped, -, hnone⟩ | hresult
  · refine ⟨?_, ?_⟩
    · rintro ⟨a, ha, hsched, -⟩
      exact absurd ((hnone a ha).symm.trans hsched) Bool.false_ne_true
    · rintro ⟨c, hc, hserves, -⟩
      exact absurd ⟨hserves.1, hserves.2.1⟩ (hdropped c hc)
  · rw [hresult]
    refine ⟨?_, ?_⟩
    · rintro ⟨a, ha, hsched, hidx, hdir⟩
      obtain ⟨c, hc, rfl⟩ := mem_dlRbAlloc.mp ha
      rw [outcome_beam.1] at hidx
      rw [outcome_beam.2.1] at hdir
      exact ⟨c, hc, (outcome_scheduled (hidle c hc)).mp hsched, hidx, hdir⟩
    · rintro ⟨c, hc, hserves, hidx, hdir⟩
      exact ⟨_, mem_dlRbAlloc.mpr ⟨c, hc, rfl⟩, (outcome_scheduled (hidle c hc)).mpr hserves,
        outcome_beam.1.trans hidx, outcome_beam.2.1.trans hdir⟩

end Slot

/-! ### The exact condition -/

/-- The column after a slot is the one on entry with the beams of the scheduled candidates. -/
structure BeamsKept (before after : ℕ → Option ℕ) (beams : ℕ) (cands : List BeamCandidate) :
    Prop where
  held : ∀ c ∈ cands, c.scheduled = true → after c.allocBeamIdx = some c.allocBeamDir
  old : ∀ e < beams, before e ≠ none → after e = before e
  freed : ∀ e < beams, before e = none →
    (∀ c ∈ cands, c.scheduled = true → c.allocBeamIdx ≠ e) → after e = none

/-- The outcomes that do no harm to the entry a candidate has claimed: the candidate is scheduled;
or it is dropped and another candidate on the entry is scheduled; or it is rejected, nothing on the
entry is scheduled, and its direction was not in the column on entry. -/
def ReservationSafe (env : BeamEnv) (before : ℕ → Option ℕ) (beams : ℕ)
    (cands : List BeamCandidate) (x : BeamCandidate) : Prop :=
  if env.validTda x then
    env.allocated x = true ∨
      (∀ c ∈ cands, c.allocBeamIdx = x.allocBeamIdx → ¬ env.Serves c) ∧
        ∀ e < beams, before e ≠ some x.allocBeamDir
  else ∃ c ∈ cands, c.allocBeamIdx = x.allocBeamIdx ∧ env.Serves c

namespace Selected

variable {before column : ℕ → Option ℕ} {beams : ℕ} {cands : List BeamCandidate}

/-- Candidates of one direction stand on the same entry. -/
theorem idx_eq (h : Selected before beams column cands) {c x : BeamCandidate} (hc : c ∈ cands)
    (hx : x ∈ cands) (hcskip : c.skipped = false) (hxskip : x.skipped = false)
    (hdir : c.allocBeamDir = x.allocBeamDir) : c.allocBeamIdx = x.allocBeamIdx := by
  rcases Nat.lt_trichotomy c.allocBeamIdx x.allocBeamIdx with hlt | heq | hgt
  · exact absurd ((h.stands c hc hcskip).2.trans (by rw [hdir])) (h.first x hx hxskip _ hlt).2
  · exact heq
  · exact absurd ((h.stands x hx hxskip).2.trans (by rw [hdir])) (h.first c hc hcskip _ hgt).2

/-- An entry is claimed once. -/
theorem claim_unique (h : Selected before beams column cands) {x y : BeamCandidate}
    (hx : x ∈ cands) (hy : y ∈ cands) (hxnew : x.allocNewBeam = true)
    (hynew : y.allocNewBeam = true) (hidx : x.allocBeamIdx = y.allocBeamIdx) : x = y := by
  by_contra hne
  have hsymm : Std.Symm fun x y : BeamCandidate =>
      x.allocNewBeam = true → y.allocNewBeam = true → x.allocBeamIdx ≠ y.allocBeamIdx :=
    ⟨fun _ _ hxy hy hx heq => hxy hx hy heq.symm⟩
  exact h.once.forall hx hy hne hxnew hynew hidx

end Selected

section Exact

variable {env : BeamEnv} {info : NrBeamInfo} {frame slot slotsPerFrame : ℕ} {ues : List BeamUe}

/-- The reservations are right only if every claimed entry is safe. -/
theorem BeamsKept.reservationSafe (hbeams : 2 ≤ info.beamsPerPeriod)
    (h : BeamsKept (info.column (info.getBeamIndex frame slot slotsPerFrame))
      ((nrDlScheduleBeams env info frame slot slotsPerFrame ues).1.column
        (info.getBeamIndex frame slot slotsPerFrame))
      info.beamsPerPeriod (nrDlScheduleBeams env info frame slot slotsPerFrame ues).2)
    {x : BeamCandidate} (hx : x ∈ (beamsSelected env info frame slot slotsPerFrame ues).2)
    (hnew : x.allocNewBeam = true) :
    ReservationSafe env (info.column (info.getBeamIndex frame slot slotsPerFrame))
      info.beamsPerPeriod (beamsSelected env info frame slot slotsPerFrame ues).2 x := by
  have hsel : Selected _ _ _ (beamsSelected env info frame slot slotsPerFrame ues).2 :=
    selected_nrDlBeamSelectDefault env info (info.getBeamIndex frame slot slotsPerFrame) ues
  obtain ⟨hskip, hbefore⟩ := hsel.fresh x hx hnew
  obtain ⟨hlt, hcol⟩ := hsel.stands x hx hskip
  unfold ReservationSafe
  split_ifs with hvalid
  · cases halloc : env.allocated x with
    | true => exact .inl rfl
    | false =>
      -- a rejected candidate clears every entry of its direction
      have hclear : ∀ e < info.beamsPerPeriod,
          (nrDlScheduleBeams env info frame slot slotsPerFrame ues).1.column
            (info.getBeamIndex frame slot slotsPerFrame) e ≠ some x.allocBeamDir := fun e he hd =>
        ((nrDlScheduleBeams_column hbeams he).mp hd).2 x hx ⟨hskip, hvalid, halloc⟩ hnew rfl
      refine .inr ⟨fun c hc hidx hserves => ?_, fun e he hold => ?_⟩
      · obtain ⟨a, ha, hsched, ha_idx, ha_dir⟩ :=
          (exists_scheduled_iff hbeams).mpr ⟨c, hc, hserves, rfl, rfl⟩
        have hheld := h.held a ha hsched
        have hdir : c.allocBeamDir = x.allocBeamDir := by
          have hcol_c := (hsel.stands c hc hserves.1).2
          rw [hidx] at hcol_c
          exact Option.some_inj.mp (hcol_c.symm.trans hcol)
        rw [ha_idx, ha_dir, hidx, hdir] at hheld
        exact hclear _ hlt hheld
      · have hkept := h.old e he (by rw [hold]; exact Option.some_ne_none _)
        exact hclear e he (hkept.trans hold)
  · by_contra hnone
    have hfree := h.freed x.allocBeamIdx hlt hbefore fun a ha hsched hidx => by
      obtain ⟨c, hc, hserves, hc_idx, -⟩ :=
        (exists_scheduled_iff hbeams).mp ⟨a, ha, hsched, hidx, rfl⟩
      exact hnone ⟨c, hc, hc_idx, hserves⟩
    -- a dropped candidate does not release its entry, and no one else can
    have hstill : (nrDlScheduleBeams env info frame slot slotsPerFrame ues).1.column
        (info.getBeamIndex frame slot slotsPerFrame) x.allocBeamIdx = some x.allocBeamDir := by
      refine (nrDlScheduleBeams_column hbeams hlt).mpr ⟨hcol, fun y hy hrej hynew hdir => ?_⟩
      have hidx := hsel.idx_eq hy hx hrej.1 hskip hdir
      obtain rfl := hsel.claim_unique hy hx hynew hnew hidx
      exact hvalid hrej.2.1
    exact absurd (hstill.symm.trans hfree) (Option.some_ne_none _)

/-- The reservations are right if every claimed entry is safe. -/
theorem beamsKept_of_reservationSafe (hbeams : 2 ≤ info.beamsPerPeriod)
    (h : ∀ x ∈ (beamsSelected env info frame slot slotsPerFrame ues).2, x.allocNewBeam = true →
      ReservationSafe env (info.column (info.getBeamIndex frame slot slotsPerFrame))
        info.beamsPerPeriod (beamsSelected env info frame slot slotsPerFrame ues).2 x) :
    BeamsKept (info.column (info.getBeamIndex frame slot slotsPerFrame))
      ((nrDlScheduleBeams env info frame slot slotsPerFrame ues).1.column
        (info.getBeamIndex frame slot slotsPerFrame))
      info.beamsPerPeriod (nrDlScheduleBeams env info frame slot slotsPerFrame ues).2 := by
  have hsel : Selected _ _ _ (beamsSelected env info frame slot slotsPerFrame ues).2 :=
    selected_nrDlBeamSelectDefault env info (info.getBeamIndex frame slot slotsPerFrame) ues
  -- what a rejected claim says about its entry
  have hrejected : ∀ x ∈ (beamsSelected env info frame slot slotsPerFrame ues).2,
      env.Rejects x → x.allocNewBeam = true →
      (∀ c ∈ (beamsSelected env info frame slot slotsPerFrame ues).2,
        c.allocBeamIdx = x.allocBeamIdx → ¬ env.Serves c) ∧
      ∀ e < info.beamsPerPeriod,
        info.column (info.getBeamIndex frame slot slotsPerFrame) e ≠ some x.allocBeamDir := by
    intro x hx hrej hnew
    have hsafe := h x hx hnew
    rw [ReservationSafe, if_pos hrej.2.1, hrej.2.2] at hsafe
    exact hsafe.resolve_left Bool.false_ne_true
  constructor
  case held =>
    intro a ha hsched
    obtain ⟨c, hc, hserves, hidx, hdir⟩ :=
      (exists_scheduled_iff hbeams).mp ⟨a, ha, hsched, rfl, rfl⟩
    obtain ⟨hlt, hcol⟩ := hsel.stands c hc hserves.1
    rw [← hidx, ← hdir]
    refine (nrDlScheduleBeams_column hbeams hlt).mpr ⟨hcol, fun x hx hrej hnew hdir' => ?_⟩
    have hsame := hsel.idx_eq hc hx hserves.1 hrej.1 hdir'.symm
    exact (hrejected x hx hrej hnew).1 c hc hsame hserves
  case old =>
    intro e he hold
    obtain ⟨d, hd⟩ := Option.ne_none_iff_exists'.mp hold
    rw [hd]
    refine (nrDlScheduleBeams_column hbeams he).mpr ⟨(hsel.kept e hold).trans hd,
      fun x hx hrej hnew hdir => ?_⟩
    exact (hrejected x hx hrej hnew).2 e he (hd.trans (by rw [hdir]))
  case freed =>
    intro e he hbefore hnone
    by_contra hset
    obtain ⟨d, hd⟩ := Option.ne_none_iff_exists'.mp hset
    obtain ⟨hcol, hkeep⟩ := (nrDlScheduleBeams_column hbeams he).mp hd
    obtain ⟨x, hx, hnew, hidx, hdir⟩ := hsel.claimed e d hbefore hcol
    have hunserved : ∀ c ∈ (beamsSelected env info frame slot slotsPerFrame ues).2,
        c.allocBeamIdx = e → ¬ env.Serves c := by
      intro c hc hc_idx hserves
      obtain ⟨a, ha, hsched, ha_idx, -⟩ :=
        (exists_scheduled_iff hbeams).mpr ⟨c, hc, hserves, hc_idx, rfl⟩
      exact hnone a ha hsched ha_idx
    have hskip := (hsel.fresh x hx hnew).1
    have hsafe := h x hx hnew
    unfold ReservationSafe at hsafe
    split_ifs at hsafe with hvalid
    · cases halloc : env.allocated x with
      | true => exact hunserved x hx hidx ⟨hskip, hvalid, halloc⟩
      | false => exact hkeep x hx ⟨hskip, hvalid, halloc⟩ hnew hdir
    · obtain ⟨c, hc, hc_idx, hserves⟩ := hsafe
      exact hunserved c hc (hc_idx.trans hidx) hserves

end Exact

/-- After a slot the column is the one on entry with the beams of the scheduled candidates exactly
when, for every candidate that claimed a new entry, the outcomes do no harm to it. -/
theorem beamsKept_iff (env : BeamEnv) (info : NrBeamInfo) (frame slot slotsPerFrame : ℕ)
    (hbeams : 2 ≤ info.beamsPerPeriod) (ues : List BeamUe) :
    BeamsKept (info.column (info.getBeamIndex frame slot slotsPerFrame))
        ((nrDlScheduleBeams env info frame slot slotsPerFrame ues).1.column
          (info.getBeamIndex frame slot slotsPerFrame))
        info.beamsPerPeriod (nrDlScheduleBeams env info frame slot slotsPerFrame ues).2 ↔
      ∀ x ∈ (beamsSelected env info frame slot slotsPerFrame ues).2, x.allocNewBeam = true →
        ReservationSafe env (info.column (info.getBeamIndex frame slot slotsPerFrame))
          info.beamsPerPeriod (beamsSelected env info frame slot slotsPerFrame ues).2 x :=
  ⟨fun h _ hx hnew => h.reservationSafe hbeams hx hnew, beamsKept_of_reservationSafe hbeams⟩

def twoFreeBeams : NrBeamInfo := ⟨2, 1, 1, fun _ _ => none⟩

/-- The UEs with the given RNTIs get resource blocks; every time-domain allocation is valid. -/
def grantingEnv (rntis : List ℕ) : BeamEnv where
  pfSort := id
  pfSort_perm := fun _ => .rfl
  beamSort := id
  beamSort_perm := fun _ => .rfl
  validTda := fun _ => true
  allocated := fun c => c.rnti ∈ rntis

/-- Two UEs share a new beam and both are scheduled: the beam is kept. -/
theorem beamsKept_both :
    BeamsKept (twoFreeBeams.column 0)
      ((nrDlScheduleBeams (grantingEnv [1, 2]) twoFreeBeams 0 0 20 [⟨1, 5⟩, ⟨2, 5⟩]).1.column 0)
      2 (nrDlScheduleBeams (grantingEnv [1, 2]) twoFreeBeams 0 0 20 [⟨1, 5⟩, ⟨2, 5⟩]).2 := by
  refine (beamsKept_iff (grantingEnv [1, 2]) twoFreeBeams 0 0 20 (Nat.le_refl 2)
    [⟨1, 5⟩, ⟨2, 5⟩]).mpr fun x hx hnew => ?_
  have hcands : (beamsSelected (grantingEnv [1, 2]) twoFreeBeams 0 0 20 [⟨1, 5⟩, ⟨2, 5⟩]).2 =
      [⟨1, 5, 0, true, false, false⟩, ⟨2, 5, 0, false, false, false⟩] := by decide
  rw [hcands, List.mem_pair] at hx
  rcases hx with rfl | rfl
  · exact .inl (by decide)
  · exact absurd hnew (by decide)

/-- Two UEs share a new beam. The one that claimed it is rejected, and its release takes the beam
from the other one, which is scheduled. -/
theorem not_beamsKept_shared :
    ¬ BeamsKept (twoFreeBeams.column 0)
      ((nrDlScheduleBeams (grantingEnv [2]) twoFreeBeams 0 0 20 [⟨1, 5⟩, ⟨2, 5⟩]).1.column 0)
      2 (nrDlScheduleBeams (grantingEnv [2]) twoFreeBeams 0 0 20 [⟨1, 5⟩, ⟨2, 5⟩]).2 := by
  intro h
  have hheld := h.held ⟨2, 5, 0, false, false, true⟩ (by decide) rfl
  exact absurd hheld (by decide)

end LlmHric.Mac
