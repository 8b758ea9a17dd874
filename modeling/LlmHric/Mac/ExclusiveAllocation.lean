import LlmHric.Mac.PolicyRounds

/-! A scheduled candidate occupies a rectangle of the VRB map of its beam: its resource blocks in
the symbols of its time-domain allocation. A policy call looks for a free block before it marks the
PDCCH and the allocation, and each candidate counts resource blocks from the start of its own
bandwidth part. This file shows that no symbol is given twice all the same. -/

namespace LlmHric.Mac

open Sweep

/-- The taken positions of a VRB map, as pairs of a resource block and a symbol. -/
def VrbMap.taken (vrbMap : VrbMap) : Set (ℕ × ℕ) := {p | (vrbMap p.1).getLsbD p.2 = true}

/-- The positions of the candidate's allocation. -/
def DlCandidate.rectangle (c : DlCandidate) : Set (ℕ × ℕ) :=
  {p | c.schedPdsch.rbStart + c.bwpStart ≤ p.1 ∧
    p.1 < c.schedPdsch.rbStart + c.bwpStart + c.schedPdsch.rbSize ∧
    c.allocSlbitmap.getLsbD p.2 = true}

def DlCandidate.bandwidthPart (c : DlCandidate) : Set (ℕ × ℕ) :=
  {p | c.bwpStart ≤ p.1 ∧ p.1 < c.bwpStart + c.bwpSize}

/-- Two candidates that are scheduled on one beam do not overlap. -/
def Apart (c c' : DlCandidate) : Prop :=
  c.scheduled = true → c'.scheduled = true → SameBeam c c' → Disjoint c.rectangle c'.rectangle

/-- The allocations of the scheduled candidates do not collide with each other or with the VRB
maps, and stay inside the bandwidth parts. -/
structure Exclusive (vrbMap : ℕ → VrbMap) (cands : List DlCandidate) : Prop where
  apart : cands.Pairwise Apart
  inside : ∀ c ∈ cands, c.scheduled = true → c.rectangle ⊆ c.bandwidthPart
  untaken : ∀ c ∈ cands, c.scheduled = true →
    Disjoint c.rectangle (vrbMap c.allocBeamIdx).taken

theorem Apart.symm {c c' : DlCandidate} (h : Apart c c') : Apart c' c :=
  fun hc hc' hbeam => (h hc' hc hbeam.symm).symm

theorem apart_of_unscheduled {c : DlCandidate} (h : c.scheduled = false) (c' : DlCandidate) :
    Apart c c' :=
  fun hc => absurd (h.symm.trans hc) Bool.false_ne_true

/-! ### Marks -/

theorem VrbMap.mem_taken_mark {vrbMap : VrbMap} {slbitmap : BitVec 16} {first rbSize : ℕ}
    {p : ℕ × ℕ} :
    p ∈ (vrbMap.mark slbitmap first rbSize).taken ↔
      p ∈ vrbMap.taken ∨ first ≤ p.1 ∧ p.1 < first + rbSize ∧ slbitmap.getLsbD p.2 = true := by
  simp only [VrbMap.taken, VrbMap.mark, Set.mem_ofPred_eq]
  split_ifs with hin
  · simp [hin.1, hin.2]
  · constructor
    · exact .inl
    · rintro (h | ⟨hfirst, hlast, -⟩)
      · exact h
      · exact absurd ⟨hfirst, hlast⟩ hin

theorem VrbMap.not_mem_taken_of_isFree {vrbMap : VrbMap} {slbitmap : BitVec 16} {rb sym : ℕ}
    (hfree : vrbMap.isFree slbitmap rb = true) (hsym : slbitmap.getLsbD sym = true) :
    (rb, sym) ∉ vrbMap.taken := by
  intro htaken
  have hzero : vrbMap rb &&& slbitmap = 0 := beq_iff_eq.mp hfree
  have hbit : (vrbMap rb &&& slbitmap).getLsbD sym = true := by
    rw [BitVec.getLsbD_and, hsym, Bool.and_true]
    exact htaken
  rw [hzero] at hbit
  simp at hbit

section Commit

variable {env : SlotEnv} {params : DlSchedParams} {s : SlotState} {c : DlCandidate}
  {rbStart rbSize mcs : ℕ}

/-- A free block is inside the bandwidth part and touches no taken position. -/
theorem DlCandidate.Fits.rectangle_allocate (h : c.Fits s.vrbMap rbStart rbSize) (mcs : ℕ) :
    (c.allocate rbStart rbSize mcs).rectangle ⊆ c.bandwidthPart ∧
      Disjoint (c.allocate rbStart rbSize mcs).rectangle (s.vrbMap c.allocBeamIdx).taken := by
  constructor
  · rintro p ⟨hfirst, hlast, -⟩
    have hinside := h.inside
    simp only [DlCandidate.allocate] at hfirst hlast
    exact ⟨by omega, by omega⟩
  · refine Set.disjoint_left.mpr ?_
    rintro ⟨rb, sym⟩ ⟨hfirst, hlast, hsym⟩
    simp only [DlCandidate.allocate] at hfirst hlast hsym
    -- the search counts from the start of the bandwidth part
    have hfree := h.free (rb - c.bwpStart) (by omega) (by omega)
    dsimp only at hfree
    rw [Nat.sub_add_cancel (by omega)] at hfree
    exact VrbMap.not_mem_taken_of_isFree hfree hsym

/-- A commit takes positions and frees none. -/
theorem taken_subset_commit (b : ℕ) :
    (s.vrbMap b).taken ⊆
      ((commitAllocOrStop env params s c rbStart rbSize mcs).state.vrbMap b).taken := by
  cases h : env.nrDlValidateCcePucch s.validations (c.allocate rbStart rbSize mcs) with
  | none => rw [commitAllocOrStop_of_none h]
  | some pdcch =>
    rw [commitAllocOrStop_of_some h]
    by_cases hb : b = c.allocBeamIdx
    · subst hb
      intro p hp
      simp only [Function.update_self]
      refine VrbMap.mem_taken_mark.mpr (.inl ?_)
      simp only [VrbMap.taken, Set.mem_ofPred_eq, BitVec.getLsbD_or, Bool.or_eq_true] at hp ⊢
      exact .inl hp
    · simp only [Function.update_of_ne hb, subset_rfl]

/-- The candidate of a commit is scheduled with its positions taken, or it is not scheduled. -/
theorem commit_scheduled_imp (hun : c.scheduled = false)
    (h : (commitAllocOrStop env params s c rbStart rbSize mcs).cand.scheduled = true) :
    (commitAllocOrStop env params s c rbStart rbSize mcs).cand.rectangle =
        (c.allocate rbStart rbSize mcs).rectangle ∧
      (c.allocate rbStart rbSize mcs).rectangle ⊆
        ((commitAllocOrStop env params s c rbStart rbSize mcs).state.vrbMap
          c.allocBeamIdx).taken := by
  cases hval : env.nrDlValidateCcePucch s.validations (c.allocate rbStart rbSize mcs) with
  | none =>
    rw [commitAllocOrStop_of_none hval] at h
    exact absurd (hun.symm.trans h) Bool.false_ne_true
  | some pdcch =>
    rw [commitAllocOrStop_of_some hval]
    refine ⟨rfl, fun p hp => ?_⟩
    simp only [Function.update_self]
    exact VrbMap.mem_taken_mark.mpr (.inr hp)

end Commit

/-! ### The invariant of the rounds -/

/-- The allocations made so far are exclusive with respect to the maps the call started from, and
their positions are taken in the maps of the state. -/
structure Placed (base : ℕ → VrbMap) (s : PassState) (order : List DlCandidate) : Prop where
  exclusive : Exclusive base order
  marked : ∀ c ∈ order, c.scheduled = true →
    c.rectangle ⊆ (s.slot.vrbMap c.allocBeamIdx).taken
  grows : ∀ b, (base b).taken ⊆ (s.slot.vrbMap b).taken

variable {env : SlotEnv} {params : DlSchedParams}

theorem mem_middle_of_mem_append {pre post : List DlCandidate} {c x : DlCandidate}
    (h : x ∈ pre ++ post) : x ∈ pre ++ c :: post := by
  rcases List.mem_append.mp h with h | h
  · exact List.mem_append_left _ h
  · exact List.mem_append_right _ (List.mem_cons_of_mem _ h)

/-- A member of a list in which one candidate was replaced. -/
theorem eq_or_mem_middle {pre post : List DlCandidate} {c c' x : DlCandidate}
    (h : x ∈ pre ++ c' :: post) : x = c' ∨ x ∈ pre ++ c :: post := by
  rcases List.mem_append.mp h with h | h
  · exact .inr (List.mem_append_left _ h)
  · rcases List.mem_cons.mp h with rfl | h
    · exact .inl rfl
    · exact .inr (mem_middle_of_mem_append (List.mem_append_right _ h))

/-- A round keeps the invariant. -/
theorem VisitStep.placed {base : ℕ → VrbMap} {pre post : List DlCandidate} {s : PassState}
    {c : DlCandidate} {v : Visit PassState DlCandidate} (hstep : VisitStep env params s c v)
    (h : Placed base s (pre ++ c :: post)) : Placed base v.state (pre ++ v.item :: post) := by
  cases hstep with
  | pass hstate hitem => rwa [hstate, hitem]
  | commit rbStart rbSize hun hfits hitem hattempts hslot =>
    have hvrb : v.state.slot.vrbMap = (commitAllocOrStop env params s.slot c rbStart rbSize
        c.schedPdsch.mcs).state.vrbMap := by rw [hslot]; rfl
    have hcand : v.item = (commitAllocOrStop env params s.slot c rbStart rbSize
        c.schedPdsch.mcs).cand := hitem
    have hid : v.item.identity = c.identity := by
      rw [hitem]
      exact commitVisit_identity hun
    have hbeam : v.item.identity.allocBeamIdx = c.identity.allocBeamIdx :=
      congrArg DlCandidate.allocBeamIdx hid
    change v.item.allocBeamIdx = c.allocBeamIdx at hbeam
    have hbwp : v.item.identity.bandwidthPart = c.identity.bandwidthPart :=
      congrArg DlCandidate.bandwidthPart hid
    change v.item.bandwidthPart = c.bandwidthPart at hbwp
    obtain ⟨hinside, hfree⟩ := hfits.rectangle_allocate c.schedPdsch.mcs
    -- what a scheduled `v.item` occupies: free before the commit, taken behind it
    have hnew : v.item.scheduled = true →
        v.item.rectangle = (c.allocate rbStart rbSize c.schedPdsch.mcs).rectangle ∧
          (c.allocate rbStart rbSize c.schedPdsch.mcs).rectangle ⊆
            (v.state.slot.vrbMap c.allocBeamIdx).taken := by
      rw [hcand, hvrb]
      exact commit_scheduled_imp hun
    have hgrow : ∀ b, (s.slot.vrbMap b).taken ⊆ (v.state.slot.vrbMap b).taken := by
      intro b
      rw [hvrb]
      exact taken_subset_commit b
    refine ⟨⟨?_, ?_, ?_⟩, ?_, fun b => (h.grows b).trans (hgrow b)⟩
    · have hpair := (List.pairwise_middle fun h => h.symm).mp h.exclusive.apart
      refine (List.pairwise_middle fun h => h.symm).mpr
        (List.pairwise_cons.mpr ⟨?_, (List.pairwise_cons.mp hpair).2⟩)
      intro x hx hv hx_sched hsame
      have hx_mem : x ∈ pre ++ c :: post := mem_middle_of_mem_append hx
      have hx_beam : x.allocBeamIdx = c.allocBeamIdx := hsame.symm.trans hbeam
      rw [(hnew hv).1]
      exact hfree.mono_right (hx_beam ▸ h.marked x hx_mem hx_sched)
    · intro x hx hsched
      rcases eq_or_mem_middle hx with rfl | hx
      · rw [(hnew hsched).1, hbwp]
        exact hinside
      · exact h.exclusive.inside x hx hsched
    · intro x hx hsched
      rcases eq_or_mem_middle hx with rfl | hx
      · rw [(hnew hsched).1, hbeam]
        exact hfree.mono_right (h.grows c.allocBeamIdx)
      · exact h.exclusive.untaken x hx hsched
    · intro x hx hsched
      rcases eq_or_mem_middle hx with rfl | hx
      · rw [(hnew hsched).1, hbeam]
        exact (hnew hsched).2
      · exact (h.marked x hx hsched).trans (hgrow x.allocBeamIdx)

/-! ### Policy calls -/

def Unscheduled (cands : List DlCandidate) : Prop := ∀ c ∈ cands, c.scheduled = false

theorem Unscheduled.exclusive {cands : List DlCandidate} (h : Unscheduled cands)
    (vrbMap : ℕ → VrbMap) : Exclusive vrbMap cands where
  apart := List.pairwise_of_forall_mem_list fun c hc c' _ => apart_of_unscheduled (h c hc) c'
  inside c hc hsched := absurd ((h c hc).symm.trans hsched) Bool.false_ne_true
  untaken c hc hsched := absurd ((h c hc).symm.trans hsched) Bool.false_ne_true

theorem Unscheduled.placed {order : List DlCandidate} (h : Unscheduled order) (s : PassState) :
    Placed s.slot.vrbMap s order where
  exclusive := h.exclusive _
  marked c hc hsched := absurd ((h c hc).symm.trans hsched) Bool.false_ne_true
  grows _ := subset_rfl

/-- Candidates that are not scheduled can be added. -/
theorem Exclusive.append {vrbMap : ℕ → VrbMap} {cands cands' : List DlCandidate}
    (h : Exclusive vrbMap cands) (h' : Unscheduled cands') :
    Exclusive vrbMap (cands ++ cands') := by
  have hrest := h'.exclusive vrbMap
  refine ⟨List.pairwise_append.mpr ⟨h.apart, hrest.apart, fun c _ c' hc' =>
    (apart_of_unscheduled (h' c' hc') c).symm⟩, fun c hc => ?_, fun c hc => ?_⟩
  · rcases List.mem_append.mp hc with hc | hc
    · exact h.inside c hc
    · exact hrest.inside c hc
  · rcases List.mem_append.mp hc with hc | hc
    · exact h.untaken c hc
    · exact hrest.untaken c hc

theorem callRun_exclusive (env : SlotEnv) (params : DlSchedParams) (n : ℕ) (s : PassState)
    {order : List DlCandidate} (h : Unscheduled order) :
    Exclusive s.slot.vrbMap (callRun env params n s order).items :=
  (callRun_invariant (I := Placed s.slot.vrbMap)
    (fun _ _ _ _ _ hstep hplaced => hstep.placed hplaced)
    (fun _ _ hplaced => ⟨hplaced.exclusive, hplaced.marked, hplaced.grows⟩) n
    (h.placed s)).exclusive

/-- Whatever the candidates, the policy table, the VRB maps and the validations, a call of either
policy with no candidate scheduled yet allocates exclusively. -/
theorem policies_exclusive (env : SlotEnv) (params : DlSchedParams) (s : SlotState)
    (cands : List DlCandidate) (h : Unscheduled cands) :
    Exclusive s.vrbMap (nrDlSlicePrbPolicy env params s cands).cands ∧
      Exclusive s.vrbMap (nrDlProportionalFair env params s cands).cands := by
  have horder : Unscheduled (buildPfOrder env cands) :=
    fun c hc => h c ((mem_buildPfOrder env).mp hc).1
  have hskipped : Unscheduled (cands.filter fun c => c.skipped) :=
    fun c hc => h c (List.mem_filter.mp hc).1
  rw [(nrDlSlicePrbPolicy_eq_callRun env params s cands).2,
    (nrDlProportionalFair_eq_callRun env params s cands).2]
  exact ⟨(callRun_exclusive env params _ s.enterCall horder).append hskipped,
    (callRun_exclusive env params _ s.enterCall horder).append hskipped⟩

/-- Two UEs of one slice on a beam whose first ten resource blocks are taken. -/
theorem policies_exclusive_loadedUes :
    Exclusive (fun _ rb => if rb < 10 then 0x3fff else 0)
        (nrDlSlicePrbPolicy (crowdedEnv flatTbs ⟨1, 1⟩) { twoBeams with maxNumUe := 2 }
          ⟨SliceState.oneSlice, fun _ rb => if rb < 10 then 0x3fff else 0, 0, 0⟩
          [loadedUe 1 0, loadedUe 2 0]).cands ∧
      Exclusive (fun _ rb => if rb < 10 then 0x3fff else 0)
        (nrDlProportionalFair (crowdedEnv flatTbs ⟨1, 1⟩) { twoBeams with maxNumUe := 2 }
          ⟨SliceState.oneSlice, fun _ rb => if rb < 10 then 0x3fff else 0, 0, 0⟩
          [loadedUe 1 0, loadedUe 2 0]).cands :=
  policies_exclusive (crowdedEnv flatTbs ⟨1, 1⟩) { twoBeams with maxNumUe := 2 }
    ⟨SliceState.oneSlice, fun _ rb => if rb < 10 then 0x3fff else 0, 0, 0⟩
    [loadedUe 1 0, loadedUe 2 0] (by simp [Unscheduled, loadedUe])

end LlmHric.Mac
