import LlmHric.Mac.UeLimit

/-! When the helpers before a pass can reach the limit and the pass still has a candidate, there is
a cell in which it is scheduled beyond the limit. The cell of this file gives every candidate a
bandwidth part of its own, so that only the limit, the budgets and the validations decide; the
candidate that overruns fails its validations until its pass begins. -/

namespace LlmHric.Mac

open Sweep

/-! ### Candidates that do not compete

In a cell where every candidate has a bandwidth part of its own, of the smallest size, each helper
schedules every candidate whose validation succeeds, as far as its budget goes. -/

/-- A bandwidth part of the smallest allocation for each candidate, apart from the others. The
candidate `x` has new data, and behind it there is no other candidate. -/
structure Layout (x : ℕ) (order : List DlCandidate) : Prop where
  size : ∀ c ∈ order, c.bwpSize = minRbSize ∧ c.retxRbSize = minRbSize
  apart : order.Pairwise fun c c' =>
    c.bwpStart + minRbSize ≤ c'.bwpStart ∨ c'.bwpStart + minRbSize ≤ c.bwpStart
  last : order.Pairwise fun c c' => c.rnti = x → c'.rnti = x
  late : ∀ c ∈ order, c.rnti = x → c.newData = true

/-- The candidate's bandwidth part is free. -/
def DlCandidate.Clear (vrbMap : ℕ → VrbMap) (c : DlCandidate) : Prop :=
  ∀ rb < minRbSize, (vrbMap c.allocBeamIdx).isFree c.allocSlbitmap (rb + c.bwpStart) = true

/-- The candidates do not compete for resource blocks. -/
structure Relaxed (x : ℕ) (s : PassState) (order : List DlCandidate) : Prop where
  layout : Layout x order
  clear : ∀ c ∈ order, c.scheduled = false → c.Clear s.slot.vrbMap

/-- The PDCCH of a successful validation takes nothing. -/
def SlotEnv.NoPdcch (env : SlotEnv) : Prop :=
  ∀ k c pdcch, env.nrDlValidateCcePucch k c = some pdcch → pdcch = fun _ => 0

section Relaxed

variable {env : SlotEnv} {params : DlSchedParams} {x : ℕ}

theorem Layout.congr {order order' : List DlCandidate}
    (hmap : order'.map DlCandidate.identity = order.map DlCandidate.identity) (h : Layout x order) :
    Layout x order' := by
  have hmem : ∀ c' ∈ order', ∃ c ∈ order, c.identity = c'.identity := by
    intro c' hc'
    have hin : c'.identity ∈ order.map DlCandidate.identity := by
      rw [← hmap]
      exact List.mem_map_of_mem hc'
    exact List.mem_map.mp hin
  have hpair : ∀ {R : DlCandidate → DlCandidate → Prop},
      order.Pairwise (fun c c' => R c.identity c'.identity) →
      order'.Pairwise fun c c' => R c.identity c'.identity := by
    intro R hR
    rw [← List.pairwise_map] at hR ⊢
    rwa [hmap]
  refine ⟨fun c' hc' => ?_, ?_, ?_, fun c' hc' hx => ?_⟩
  · obtain ⟨c, hc, hid⟩ := hmem c' hc'
    have hsize : c.identity.bwpSize = c'.identity.bwpSize := by rw [hid]
    have hretx : c.identity.retxRbSize = c'.identity.retxRbSize := by rw [hid]
    exact ⟨hsize.symm.trans (h.size c hc).1, hretx.symm.trans (h.size c hc).2⟩
  · exact hpair (R := fun c c' => c.bwpStart + minRbSize ≤ c'.bwpStart ∨
      c'.bwpStart + minRbSize ≤ c.bwpStart) h.apart
  · exact hpair (R := fun c c' => c.rnti = x → c'.rnti = x) h.last
  · obtain ⟨c, hc, hid⟩ := hmem c' hc'
    have hrnti : c.identity.rnti = c'.identity.rnti := by rw [hid]
    exact (lasting_newData c' c hid).symm.trans (h.late c hc (hrnti.trans hx))

theorem Layout.tail {c : DlCandidate} {order : List DlCandidate} (h : Layout x (c :: order)) :
    Layout x order :=
  ⟨fun a ha => h.size a (List.mem_cons_of_mem c ha), (List.pairwise_cons.mp h.apart).2,
    (List.pairwise_cons.mp h.last).2, fun a ha => h.late a (List.mem_cons_of_mem c ha)⟩

theorem VisitStep.map_identity {pre post : List DlCandidate} {s : PassState} {c : DlCandidate}
    {v : Visit PassState DlCandidate} (h : VisitStep env params s c v) :
    (pre ++ v.item :: post).map DlCandidate.identity =
      (pre ++ c :: post).map DlCandidate.identity := by
  simp only [List.map_append, List.map_cons, h.identity_eq]

/-- A commit inside a bandwidth part that is apart leaves the other one clear. -/
theorem DlCandidate.Clear.commit {s : SlotState} {c c' : DlCandidate} {rbStart rbSize mcs : ℕ}
    (hpdcch : env.NoPdcch) (h : c'.Clear s.vrbMap) (hsize : c.bwpSize = minRbSize)
    (hinside : rbStart + rbSize ≤ c.bwpSize)
    (hapart : c.bwpStart + minRbSize ≤ c'.bwpStart ∨ c'.bwpStart + minRbSize ≤ c.bwpStart) :
    c'.Clear (commitAllocOrStop env params s c rbStart rbSize mcs).state.vrbMap := by
  intro rb hrb
  have hfree := h rb hrb
  cases hval : env.nrDlValidateCcePucch s.validations (c.allocate rbStart rbSize mcs) with
  | none =>
    rw [commitAllocOrStop_of_none hval]
    exact hfree
  | some pdcch =>
    obtain rfl := hpdcch _ _ _ hval
    rw [commitAllocOrStop_of_some hval]
    by_cases hbeam : c'.allocBeamIdx = c.allocBeamIdx
    · rw [hbeam] at hfree ⊢
      have hout : ¬ (rbStart + c.bwpStart ≤ rb + c'.bwpStart ∧
          rb + c'.bwpStart < rbStart + c.bwpStart + rbSize) := by omega
      simpa [VrbMap.isFree, VrbMap.mark, if_neg hout] using hfree
    · simp only [Function.update_of_ne hbeam]
      exact hfree

theorem VisitStep.relaxed (hpdcch : env.NoPdcch) (pre : List DlCandidate) {post : List DlCandidate}
    {s : PassState} {c : DlCandidate} {v : Visit PassState DlCandidate}
    (hstep : VisitStep env params s c v)
    (h : Relaxed x s (pre ++ c :: post)) : Relaxed x v.state (pre ++ v.item :: post) := by
  refine ⟨h.layout.congr hstep.map_identity, ?_⟩
  have hid := hstep.identity_eq
  cases hstep with
  | pass hstate hitem =>
    rw [hstate, hitem]
    exact h.clear
  | commit rbStart rbSize hun hfits hitem _ hslot =>
    have hvrb : v.state.slot.vrbMap = (commitAllocOrStop env params s.slot c rbStart rbSize
        c.schedPdsch.mcs).state.vrbMap := by rw [hslot]; rfl
    have hc_size := (h.layout.size c (by simp)).1
    rw [hvrb]
    intro a ha ha_un
    have hothers : a = v.item ∨ a ∈ pre ++ post := by
      rcases List.mem_append.mp ha with ha | ha
      · exact .inr (List.mem_append_left _ ha)
      · rcases List.mem_cons.mp ha with rfl | ha
        · exact .inl rfl
        · exact .inr (List.mem_append_right _ ha)
    rcases hothers with rfl | ha
    · -- the candidate itself stays unscheduled, so nothing was marked
      cases hval : env.nrDlValidateCcePucch s.slot.validations
          (c.allocate rbStart rbSize c.schedPdsch.mcs) with
      | none =>
        rw [commitAllocOrStop_of_none hval]
        have hclear : c.identity.Clear s.slot.vrbMap := h.clear c (by simp) hun
        rw [← hid] at hclear
        exact hclear
      | some pdcch =>
        simp only [commitVisit, commitAllocOrStop_of_some hval] at hitem
        rw [hitem] at ha_un
        exact absurd ha_un (by simp)
    · have hpair := (List.pairwise_cons.mp ((List.pairwise_middle fun h => h.symm).mp
        h.layout.apart)).1 a ha
      refine (h.clear a ?_ ha_un).commit hpdcch hc_size hfits.inside hpair
      rcases List.mem_append.mp ha with ha | ha
      · exact List.mem_append_left _ ha
      · exact List.mem_append_right _ (List.mem_cons_of_mem _ ha)

theorem Relaxed.tail {s : PassState} {c : DlCandidate} {order : List DlCandidate}
    (h : Relaxed x s (c :: order)) : Relaxed x s order :=
  ⟨h.layout.tail, fun a ha => h.clear a (List.mem_cons_of_mem c ha)⟩

/-- What is left of the candidates after a round still does not compete. -/
theorem Relaxed.next (hpdcch : env.NoPdcch) {s : PassState} {c : DlCandidate}
    {order : List DlCandidate} {v : Visit PassState DlCandidate}
    (hstep : VisitStep env params s c v) (h : Relaxed x s (c :: order)) :
    Relaxed x v.state order :=
  (hstep.relaxed hpdcch [] h).tail

/-! ### Rounds that cannot miss -/

/-- The whole bandwidth part is the block on offer. -/
theorem getRbAlloc_of_clear {vrbMap : ℕ → VrbMap} {c : DlCandidate} (h : c.Clear vrbMap)
    (hsize : c.bwpSize = minRbSize) :
    getRbAlloc minRbSize c.bwpSize c.bwpStart c.bwpSize (vrbMap c.allocBeamIdx) c.allocSlbitmap =
      some (0, minRbSize) := by
  have hfree : ∀ rb < 5,
      (vrbMap c.allocBeamIdx).isFree c.allocSlbitmap (c.bwpStart + rb) = true := by
    intro rb hrb
    rw [Nat.add_comm]
    exact h rb hrb
  have hfirst : (vrbMap c.allocBeamIdx).isFree c.allocSlbitmap c.bwpStart = true :=
    hfree 0 (by decide)
  unfold minRbSize at hsize
  have hlimit : currentLimit 0 5 5 = 5 := by decide
  rw [hsize]
  simp [getRbAlloc, getRbAllocFrom, freeRunEnd, minRbSize, hfree, hfirst, hlimit]

theorem getLimitedFreeBlock_of_clear {vrbMap : ℕ → VrbMap} {c : DlCandidate} (h : c.Clear vrbMap)
    (hsize : c.bwpSize = minRbSize) {rest : ℕ} (hrest : 0 < rest → minRbSize ≤ rest) :
    getLimitedFreeBlock vrbMap c rest = (minRbSize, 0) := by
  have hblock : findLargestFreeBlock (vrbMap c.allocBeamIdx) c.allocSlbitmap c.bwpStart c.bwpSize =
      (minRbSize, 0) := by
    rw [← hsize]
    exact findLargestFreeBlock_of_free fun rb hrb => h rb (hsize ▸ hrb)
  unfold getLimitedFreeBlock
  rw [hblock]
  dsimp only
  split_ifs with hpos
  · rw [min_eq_left (hrest hpos)]
  · rfl

theorem newtxRbSize_minRbSize (c : DlCandidate) : newtxRbSize env c minRbSize = minRbSize := by
  obtain ⟨hmin, hmax⟩ := nrFindNbRb_mem (env.tbsBytes c) c.bytesToSend (le_refl minRbSize)
  exact le_antisymm hmax hmin

/-- A wanted candidate that does not compete reaches its commit. -/
theorem exactVisit_of_clear {wanted : DlCandidate → Bool} {neededRbs : DlCandidate → ℕ}
    {s : PassState} {c : DlCandidate} (h : c.Clear s.slot.vrbMap) (hsize : c.bwpSize = minRbSize)
    (hun : c.scheduled = false) (hwanted : wanted c = true) (hneeded : neededRbs c = minRbSize) :
    exactVisit env params wanted neededRbs s c = commitVisit env params s c 0 minRbSize := by
  simp [exactVisit, hun, hwanted, hneeded, getRbAlloc_of_clear h hsize]

/-- A served candidate that does not compete reaches its commit while the budget lasts. -/
theorem newtxVisit_of_clear {policy : Option ℕ} {rbBudget : ℕ} {s : PassState} {c : DlCandidate}
    (h : c.Clear s.slot.vrbMap) (hsize : c.bwpSize = minRbSize)
    (hserves : newtxServes s.slot.mac policy c = true)
    (hbudget : 0 < rbBudget → minRbSize ≤ rbBudget - s.used) :
    newtxVisit env params policy rbBudget s c =
      if (commitVisit env params s c 0 minRbSize).stop then
        commitVisit env params s c 0 minRbSize
      else
        { commitVisit env params s c 0 minRbSize with
          state := (commitVisit env params s c 0 minRbSize).state.charge params policy
            minRbSize } := by
  have hskip : ¬ (!newtxServes s.slot.mac policy c) = true := by simp [hserves]
  have hbreak : ¬ (rbBudget > 0 ∧
      (if rbBudget > 0 then rbBudget - s.used else 0) < minRbSize) := by
    rintro ⟨hpos, hlt⟩
    rw [if_pos hpos] at hlt
    exact absurd (hbudget hpos) (by omega)
  have hblock : getLimitedFreeBlock s.slot.vrbMap c
      (if rbBudget > 0 then rbBudget - s.used else 0) = (minRbSize, 0) := by
    refine getLimitedFreeBlock_of_clear h hsize fun hpos => ?_
    split_ifs at hpos ⊢ with hB
    · exact hbudget hB
    · omega
  unfold newtxVisit
  rw [if_neg hskip]
  dsimp only
  rw [if_neg hbreak, hblock, if_neg (lt_irrefl _), newtxRbSize_minRbSize]

theorem commitVisit_validations {s : PassState} {c : DlCandidate} {rbStart rbSize : ℕ} :
    (commitVisit env params s c rbStart rbSize).state.slot.validations =
      s.slot.validations + 1 := by
  cases hval : env.nrDlValidateCcePucch s.slot.validations
      (c.allocate rbStart rbSize c.schedPdsch.mcs) with
  | none => simp only [commitVisit, commitAllocOrStop_of_none hval]
  | some pdcch => simp only [commitVisit, commitAllocOrStop_of_some hval]

variable (params) in
/-- A commit whose validation succeeds counts its candidate. -/
theorem commitVisit_of_isSome {s : PassState} {c : DlCandidate} {rbStart rbSize : ℕ}
    (h : (env.nrDlValidateCcePucch s.slot.validations
      (c.allocate rbStart rbSize c.schedPdsch.mcs)).isSome = true) :
    (commitVisit env params s c rbStart rbSize).state.slot.nScheduled = s.slot.nScheduled + 1 ∧
      (commitVisit env params s c rbStart rbSize).item.scheduled = true ∧
      ((commitVisit env params s c rbStart rbSize).stop = true →
        params.maxNumUe ≤ s.slot.nScheduled + 1) := by
  obtain ⟨pdcch, hval⟩ := Option.isSome_iff_exists.mp h
  simp only [commitVisit, commitAllocOrStop_of_some hval]
  refine ⟨trivial, trivial, fun hstop => ?_⟩
  by_contra hlimit
  simp [hlimit] at hstop

end Relaxed

/-! ### What a helper reaches -/

def AllScheduled (q : DlCandidate → Bool) (order : List DlCandidate) : Prop :=
  ∀ c ∈ order, q c = true → c.scheduled = true

theorem AllScheduled.cons {q : DlCandidate → Bool} {c : DlCandidate} {order : List DlCandidate}
    (hc : q c = true → c.scheduled = true) (h : AllScheduled q order) :
    AllScheduled q (c :: order) :=
  List.forall_mem_cons.mpr ⟨hc, h⟩

theorem AllScheduled.scheduledOf_eq {q : DlCandidate → Bool} {order : List DlCandidate}
    (h : AllScheduled q order) : scheduledOf q order = order.countP q := by
  refine List.countP_congr fun c hc => ?_
  rw [Bool.and_eq_true]
  exact ⟨fun hboth => hboth.2, fun hq => ⟨h c hc hq, hq⟩⟩

theorem VisitStep.scheduled {env : SlotEnv} {params : DlSchedParams} {s : PassState}
    {c : DlCandidate} {v : Visit PassState DlCandidate} (hstep : VisitStep env params s c v)
    (h : c.scheduled = true) : v.item.scheduled = true := by
  cases hstep with
  | pass _ hitem => rwa [hitem]
  | commit rbStart rbSize hun => exact absurd (hun.symm.trans h) (by simp)

theorem VisitStep.allScheduled {q : DlCandidate → Bool} (hq : Lasting q) {env : SlotEnv}
    {params : DlSchedParams} {pre post : List DlCandidate} {s : PassState} {c : DlCandidate}
    {v : Visit PassState DlCandidate} (hstep : VisitStep env params s c v)
    (h : AllScheduled q (pre ++ c :: post)) : AllScheduled q (pre ++ v.item :: post) := by
  intro a ha hqa
  rcases List.mem_append.mp ha with ha | ha
  · exact h a (List.mem_append_left _ ha) hqa
  · rcases List.mem_cons.mp ha with rfl | ha
    · rw [hq c _ hstep.identity_eq] at hqa
      exact hstep.scheduled (h c (by simp) hqa)
    · exact h a (by simp [ha]) hqa

theorem VisitStep.scheduledOf_le {q : DlCandidate → Bool} (hq : Lasting q) {env : SlotEnv}
    {params : DlSchedParams} {pre post : List DlCandidate} {s : PassState} {c : DlCandidate}
    {v : Visit PassState DlCandidate} (hstep : VisitStep env params s c v) :
    scheduledOf q (pre ++ c :: post) ≤ scheduledOf q (pre ++ v.item :: post) := by
  unfold scheduledOf
  simp only [List.countP_append, List.countP_cons, hq c _ hstep.identity_eq]
  refine Nat.add_le_add_left (Nat.add_le_add_left ?_ _) _
  cases hsched : c.scheduled with
  | true => rw [hstep.scheduled hsched]
  | false => simp

theorem scheduledOf_cons (q : DlCandidate → Bool) (c : DlCandidate) (order : List DlCandidate) :
    scheduledOf q (c :: order) =
      scheduledOf q order + if (c.scheduled && q c) = true then 1 else 0 :=
  List.countP_cons

/-- The candidate has new data of the slice and is not `x`. -/
def DlCandidate.otherOf (x : ℕ) (n : Nssai) (c : DlCandidate) : Bool :=
  c.ofSlice n && decide (c.rnti ≠ x)

theorem otherOf_iff {x : ℕ} {n : Nssai} {c : DlCandidate} :
    c.otherOf x n = true ↔ c.ofSlice n = true ∧ c.rnti ≠ x := by
  simp [DlCandidate.otherOf]

theorem lasting_otherOf (x : ℕ) (n : Nssai) : Lasting (DlCandidate.otherOf x n) := by
  intro c c' h
  have hid : c'.identity.otherOf x n = c.identity.otherOf x n := by rw [h]
  exact hid

theorem scheduledOf_mono {q q' : DlCandidate → Bool} (h : ∀ c, q c = true → q' c = true)
    (order : List DlCandidate) : scheduledOf q order ≤ scheduledOf q' order := by
  refine List.countP_mono_left fun c _ hc => ?_
  rw [Bool.and_eq_true] at hc ⊢
  exact ⟨hc.1, h c hc.2⟩

/-- The count of a call never goes down. -/
theorem slicesRun_nScheduled_mono (env : SlotEnv) (params : DlSchedParams) (s : PassState)
    (order : List DlCandidate) {p p' : ℕ} (h : p ≤ p') :
    (slicesRun env params p s order).1.slot.nScheduled ≤
      (slicesRun env params p' s order).1.slot.nScheduled := by
  induction p', h using Nat.le_induction with
  | base => exact le_rfl
  | succ n _ ih =>
    refine ih.trans ?_
    simp only [slicesRun]
    split_ifs
    · exact (run_nScheduled_le (newtxVisit_stopsAtLimit env params (some n) _)
        { (slicesRun env params n s order).1 with used := 0 } _).1
    · exact le_rfl

/-- A pass of an entry ends at the limit, or schedules the candidates it counts as far as its budget
goes. -/
def NewtxReaches (env : SlotEnv) (params : DlSchedParams) (k : ℕ) (q : DlCandidate → Bool)
    (rbBudget : ℕ) (s : PassState) (order : List DlCandidate) : Prop :=
  params.maxNumUe ≤
      (run (newtxVisit env params (some k) rbBudget) s order).state.slot.nScheduled ∨
    min (order.countP q) (scheduledOf q order + (rbBudget - s.used) / minRbSize) ≤
      scheduledOf q (run (newtxVisit env params (some k) rbBudget) s order).items

namespace NewtxReaches

variable {env : SlotEnv} {params : DlSchedParams} {k rbBudget : ℕ} {q : DlCandidate → Bool}
  {s : PassState} {c : DlCandidate} {order : List DlCandidate}

/-- A candidate that is passed over is scheduled already, or does not count. -/
theorem cons_pass (h : NewtxReaches env params k q rbBudget s order)
    (hvisit : newtxVisit env params (some k) rbBudget s c = .pass s c)
    (hdone : q c = true → c.scheduled = true) :
    NewtxReaches env params k q rbBudget s (c :: order) := by
  rw [NewtxReaches, run_cons_pass hvisit]
  refine h.imp_right fun hle => ?_
  rw [scheduledOf_cons, scheduledOf_cons, List.countP_cons]
  by_cases hqc : q c = true
  · rw [hqc, hdone hqc]
    simp only [Bool.and_self, if_true]
    omega
  · rw [if_neg hqc]
    have hno : ¬ (c.scheduled && q c) = true := by simp [hqc]
    rw [if_neg hno]
    exact hle

/-- A budget that is used up ends the pass. -/
theorem cons_spent (hserves : newtxServes s.slot.mac (some k) c = true) (hpos : 0 < rbBudget)
    (hspent : rbBudget - s.used < minRbSize) :
    NewtxReaches env params k q rbBudget s (c :: order) := by
  have hvisit : newtxVisit env params (some k) rbBudget s c = ⟨s, c, true⟩ := by
    have hskip : ¬ (!newtxServes s.slot.mac (some k) c) = true := by simp [hserves]
    have hlow : rbBudget > 0 ∧
        (if rbBudget > 0 then rbBudget - s.used else 0) < minRbSize := by
      rw [if_pos hpos]
      exact ⟨hpos, hspent⟩
    unfold newtxVisit
    rw [if_neg hskip]
    exact if_pos hlow
  have hzero : (rbBudget - s.used) / minRbSize = 0 := Nat.div_eq_of_lt hspent
  right
  rw [run_cons_of_stop (by rw [hvisit]), hvisit, hzero, Nat.add_zero]
  exact min_le_right _ _

/-- A candidate that is scheduled takes the smallest grant from the budget. -/
theorem cons_scheduled (hgo : (newtxVisit env params (some k) rbBudget s c).stop = false)
    (hun : c.scheduled = false) (hqc : q c = true) (hbudget : minRbSize ≤ rbBudget - s.used)
    (hitem : q (newtxVisit env params (some k) rbBudget s c).item = true)
    (hdone : (newtxVisit env params (some k) rbBudget s c).item.scheduled = true)
    (hused : (newtxVisit env params (some k) rbBudget s c).state.used = s.used + minRbSize)
    (hnext : NewtxReaches env params k q rbBudget
      (newtxVisit env params (some k) rbBudget s c).state order) :
    NewtxReaches env params k q rbBudget s (c :: order) := by
  rw [NewtxReaches, run_cons_of_not_stop hgo]
  refine hnext.imp_right fun hle => ?_
  rw [hused] at hle
  rw [scheduledOf_cons, scheduledOf_cons, List.countP_cons, hitem, hdone, hun, hqc]
  unfold minRbSize at hle hbudget ⊢
  simp only [Bool.and_self, Bool.and_true, Bool.false_eq_true, if_true, if_false]
  omega

end NewtxReaches

/-- The passes of the entries keep every count of candidates. -/
theorem slicesRun_countP_eq {env : SlotEnv} {params : DlSchedParams} {q : DlCandidate → Bool}
    (hq : Lasting q) {s : PassState} {order : List DlCandidate} {p : ℕ} :
    (slicesRun env params p s order).2.countP q = order.countP q :=
  slicesRun_invariant (I := fun _ l => l.countP q = order.countP q)
    (fun _ _ _ _ _ hstep hl => (hstep.countP_eq hq).trans hl) (fun _ _ h => h) p rfl

section Lower

variable {env : SlotEnv} (params : DlSchedParams) {x : ℕ} (hpdcch : env.NoPdcch)
  (hok : ∀ k (c : DlCandidate), c.rnti ≠ x → (env.nrDlValidateCcePucch k c).isSome = true)

include hpdcch hok in
/-- A loop of the early helper ends at the limit or schedules all that it wants. -/
theorem exactRun_reaches (wanted : DlCandidate → Bool) (neededRbs : DlCandidate → ℕ)
    {s : PassState} {order : List DlCandidate} (h : Relaxed x s order)
    (hwanted : ∀ c ∈ order, wanted c = true → c.rnti ≠ x ∧ neededRbs c = minRbSize) :
    ((run (exactVisit env params wanted neededRbs) s order).stopped = true →
        params.maxNumUe ≤
          (run (exactVisit env params wanted neededRbs) s order).state.slot.nScheduled) ∧
      ((run (exactVisit env params wanted neededRbs) s order).stopped = false →
        AllScheduled wanted (run (exactVisit env params wanted neededRbs) s order).items) := by
  induction order generalizing s with
  | nil => exact ⟨fun h => absurd h (by simp), fun _ c hc => absurd hc List.not_mem_nil⟩
  | cons c order ih =>
    have hrest : ∀ a ∈ order, wanted a = true → a.rnti ≠ x ∧ neededRbs a = minRbSize :=
      fun a ha => hwanted a (List.mem_cons_of_mem c ha)
    have hstep := exactVisit_step env params wanted neededRbs s c
    by_cases hserved : c.scheduled = false ∧ wanted c = true
    · obtain ⟨hrnti, hneeded⟩ := hwanted c List.mem_cons_self hserved.2
      have hvisit : exactVisit env params wanted neededRbs s c =
          commitVisit env params s c 0 minRbSize :=
        exactVisit_of_clear (h.clear c List.mem_cons_self hserved.1)
          (h.layout.size c List.mem_cons_self).1 hserved.1 hserved.2 hneeded
      obtain ⟨hn, hsched, hlimit⟩ := commitVisit_of_isSome params
        (hok s.slot.validations (c.allocate 0 minRbSize c.schedPdsch.mcs) hrnti)
      cases hstop : (exactVisit env params wanted neededRbs s c).stop with
      | true =>
        rw [run_cons_of_stop hstop]
        refine ⟨fun _ => ?_, fun h => absurd h (by simp)⟩
        rw [hvisit] at hstop ⊢
        exact (hlimit hstop).trans hn.ge
      | false =>
        rw [run_cons_of_not_stop hstop]
        obtain ⟨hend, hall⟩ := ih (h.next hpdcch hstep) hrest
        refine ⟨hend, fun hgo => ?_⟩
        have hdone : (exactVisit env params wanted neededRbs s c).item.scheduled = true := by
          rw [hvisit]
          exact hsched
        exact (hall hgo).cons fun _ => hdone
    · have hvisit : exactVisit env params wanted neededRbs s c = .pass s c := by
        unfold exactVisit
        refine if_pos ?_
        by_contra hnot
        refine hserved ⟨?_, ?_⟩
        · by_contra hs
          simp [hs] at hnot
        · by_contra hw
          simp [hw] at hnot
      rw [run_cons_pass hvisit]
      obtain ⟨hend, hall⟩ := ih h.tail hrest
      -- a wanted candidate that is passed over is scheduled already
      refine ⟨hend, fun hgo => (hall hgo).cons fun hw => ?_⟩
      by_contra hs
      exact hserved ⟨by simpa using hs, hw⟩

include hpdcch hok in
/-- A pass of an entry ends at the limit, or schedules the candidates of its slice other than `x`
as far as its budget goes. -/
theorem newtxRun_reaches {mac : SliceState} {k : ℕ} {q : DlCandidate → Bool}
    (hq : ∀ c, q c = true ↔
      c.ofSlice (mac.dlSlicePolicy.entry k).nssai = true ∧ c.rnti ≠ x)
    (hlasting : Lasting q) {rbBudget : ℕ} (hpos : 0 < rbBudget) {s : PassState}
    (htable : SameTable mac s.slot.mac) {order : List DlCandidate} (h : Relaxed x s order) :
    NewtxReaches env params k q rbBudget s order := by
  induction order generalizing s with
  | nil => exact .inr (by simp)
  | cons c order ih =>
    have hstep := newtxVisit_step env params (some k) rbBudget s c
    by_cases hx : c.rnti = x
    · -- only `x` is left, which does not count
      right
      have hnone : (c :: order).countP q = 0 := by
        refine List.countP_eq_zero.mpr fun a ha hqa => ((hq a).mp hqa).2 ?_
        rcases List.mem_cons.mp ha with rfl | ha
        · exact hx
        · exact (List.pairwise_cons.mp h.layout.last).1 a ha hx
      rw [hnone, Nat.zero_min]
      exact Nat.zero_le _
    by_cases hserves : newtxServes s.slot.mac (some k) c = true
    · have hserves' := hserves
      rw [htable.newtxServes_eq] at hserves'
      obtain ⟨hun, hnew, hnssai⟩ := (newtxServes_iff (some k)).mp hserves'
      dsimp only at hnssai
      have hqc : q c = true := (hq c).mpr ⟨by simp [DlCandidate.ofSlice, hnew, hnssai], hx⟩
      by_cases hbudget : minRbSize ≤ rbBudget - s.used
      · have hvisit : newtxVisit env params (some k) rbBudget s c = _ :=
          newtxVisit_of_clear (h.clear c List.mem_cons_self hun)
            (h.layout.size c List.mem_cons_self).1 hserves fun _ => hbudget
        obtain ⟨hn, hsched, hlimit⟩ := commitVisit_of_isSome params
          (hok s.slot.validations (c.allocate 0 minRbSize c.schedPdsch.mcs) hx)
        split_ifs at hvisit with hstop
        · left
          rw [run_cons_of_stop (by rw [hvisit]; exact hstop), hvisit]
          exact (hlimit hstop).trans hn.ge
        · refine .cons_scheduled ?_ hun hqc hbudget ((hlasting c _ hstep.identity_eq).trans hqc)
            ?_ ?_ ?_
          · rw [hvisit]
            exact Bool.not_eq_true _ ▸ hstop
          · rw [hvisit]
            exact hsched
          · rw [hvisit]
            rfl
          · exact ih (htable.trans (newtxVisit_round env params (some k) rbBudget s c).sameTable)
              (h.next hpdcch hstep)
      · exact .cons_spent hserves hpos (by omega)
    · have hvisit : newtxVisit env params (some k) rbBudget s c = .pass s c := by
        simp [newtxVisit, hserves]
      refine (ih htable h.tail).cons_pass hvisit fun hqc => ?_
      -- it counts, so it is not served because it is scheduled
      by_contra hs
      obtain ⟨hof, -⟩ := (hq c).mp hqc
      simp only [DlCandidate.ofSlice, Bool.and_eq_true, decide_eq_true_eq] at hof
      rw [htable.newtxServes_eq] at hserves
      exact hserves ((newtxServes_iff (some k)).mpr ⟨by simpa using hs, hof.1, hof.2⟩)

include hpdcch hok in
/-- The early helper ends at the limit or schedules all retransmissions and all candidates without
data. -/
theorem earlyRun_reaches {s : PassState} {order : List DlCandidate} (h : Relaxed x s order) :
    params.maxNumUe ≤ (earlyRun env params s order).state.slot.nScheduled ∨
      AllScheduled (fun c => !c.newData) (earlyRun env params s order).items := by
  have hother : ∀ {l : List DlCandidate}, Layout x l → ∀ c ∈ l, c.newData = false → c.rnti ≠ x :=
    fun hl c hc hnew hx => Bool.false_ne_true (hnew.symm.trans (hl.late c hc hx))
  obtain ⟨hend, hall⟩ := exactRun_reaches params hpdcch hok (fun c => c.isRetx)
    (fun c => c.retxRbSize) h fun c hc hretx =>
      ⟨hother h.layout c hc (newData_of_isRetx hretx), (h.layout.size c hc).2⟩
  have hnext : Relaxed x
      (run (exactVisit env params (fun c => c.isRetx) fun c => c.retxRbSize) s order).state
      (run (exactVisit env params (fun c => c.isRetx) fun c => c.retxRbSize) s order).items :=
    exactRun_invariant (fun pre _ _ _ _ hstep => hstep.relaxed hpdcch pre) _ _ h
  simp only [earlyRun]
  generalize run (exactVisit env params (fun c => c.isRetx) fun c => c.retxRbSize) s order = retx
    at hend hall hnext ⊢
  obtain ⟨hend₂, hall₂⟩ := exactRun_reaches params hpdcch hok
    (fun c => !c.isRetx && c.pendingBytes == 0) (fun _ => minRbSize) hnext fun c hc hnoData =>
      ⟨hother hnext.layout c hc (newData_of_noData hnoData), rfl⟩
  split_ifs with hstop
  · exact .inl (hend hstop)
  · cases hstop₂ : (run (exactVisit env params (fun c => !c.isRetx && c.pendingBytes == 0)
      fun _ => minRbSize) retx.state retx.items).stopped with
    | true => exact .inl (hend₂ hstop₂)
    | false =>
      -- the second loop keeps the retransmissions scheduled
      have hretx : AllScheduled (fun c => c.isRetx) (run (exactVisit env params
          (fun c => !c.isRetx && c.pendingBytes == 0) fun _ => minRbSize) retx.state
          retx.items).items :=
        exactRun_invariant (I := fun _ => AllScheduled fun c => c.isRetx)
          (fun _ _ _ _ _ hstep => hstep.allScheduled lasting_isRetx) _ _
          (hall (Bool.not_eq_true _ ▸ hstop))
      refine .inr fun c hc hnew => ?_
      cases hr : c.isRetx with
      | true => exact hretx c hc hr
      | false =>
        refine hall₂ hstop₂ c hc ?_
        simpa [DlCandidate.newData, hr] using hnew

include hpdcch hok in
/-- The passes of the entries before `p` end at the limit, or schedule of every slice as many
candidates other than `x` as there are or as fit in its budgets. -/
theorem slicesRun_reaches {mac : SliceState} {s : PassState} (htable : SameTable mac s.slot.mac)
    {order : List DlCandidate} (h : Relaxed x s order) (p : ℕ) :
    params.maxNumUe ≤ (slicesRun env params p s order).1.slot.nScheduled ∨
      ∀ n, min (order.countP (DlCandidate.otherOf x n)) (grantsBefore params mac p n) ≤
        scheduledOf (DlCandidate.otherOf x n) (slicesRun env params p s order).2 := by
  induction p with
  | zero =>
    refine .inr fun n => (min_le_right _ _).trans ?_
    simp [grantsBefore]
  | succ p ih =>
    rcases ih with hfull | hreached
    · exact .inl (hfull.trans (slicesRun_nScheduled_mono env params s order (Nat.le_succ p)))
    have hbefore := htable.trans (slicesRun_sameTable env params p s order)
    have hrelaxed : Relaxed x (slicesRun env params p s order).1
        (slicesRun env params p s order).2 :=
      slicesRun_invariant (fun pre _ _ _ _ hstep => hstep.relaxed hpdcch pre)
        (fun _ _ h => ⟨h.layout, h.clear⟩) p h
    have hiff : (slicesRun env params p s order).1.slot.mac.HasPass params p ↔
        mac.HasPass params p := hbefore.hasPass_iff params p
    simp only [slicesRun, policyRun]
    split_ifs with hpass
    · have hpos := hpass.2
      rcases newtxRun_reaches params hpdcch hok (k := p) (q := DlCandidate.otherOf x
          (mac.dlSlicePolicy.entry p).nssai) (fun c => otherOf_iff) (lasting_otherOf x _) hpos
          (s := { (slicesRun env params p s order).1 with used := 0 }) hbefore
          ⟨hrelaxed.layout, hrelaxed.clear⟩ with hfull | hadded
      · exact .inl hfull
      · refine .inr fun n => ?_
        rw [grantsBefore_succ]
        by_cases hn : (mac.dlSlicePolicy.entry p).nssai = n
        · -- a pass of the slice adds its budget to what was reached before
          have hold := hreached n
          have hgrants : grantsOf params mac p =
              (totalBudget params (mac.dlSlicePolicy.entry p).dedicatedPrbRatio - 0) /
                minRbSize := if_pos (hiff.mp hpass)
          rw [slicesRun_countP_eq (lasting_otherOf x _), hn, hbefore.policy, ← hgrants] at hadded
          rw [if_pos hn, hbefore.policy]
          refine le_trans ?_ hadded
          omega
        · rw [if_neg hn, Nat.add_zero]
          refine (hreached n).trans ?_
          exact newtxRun_invariant (I := fun _ l => scheduledOf (DlCandidate.otherOf x n)
              (slicesRun env params p s order).2 ≤ scheduledOf (DlCandidate.otherOf x n) l)
            (fun _ _ _ _ _ hstep hl => hl.trans (hstep.scheduledOf_le (lasting_otherOf x n)))
            _ _ le_rfl
    · refine .inr fun n => ?_
      have hzero : grantsOf params mac p = 0 := if_neg (mt hiff.mpr hpass)
      rw [grantsBefore_succ, hzero, ite_self, Nat.add_zero]
      exact hreached n

include hpdcch hok in
/-- The helpers before the pass of entry `p` reach the limit, or as much as they can. -/
theorem le_sliceStart_nScheduled {places : List Placement} {s : PassState}
    {order : List DlCandidate} (hcounted : Counted s order) (hstands : Stands places order)
    (h : Relaxed x s order) (p : ℕ) (left : Option Nssai)
    (hleft : ∀ n, (waiting (Placement.ofSlice n) places - if left = some n then 1 else 0) ≤
      order.countP (DlCandidate.otherOf x n)) :
    min params.maxNumUe (reach params s.slot.mac places p left) ≤
      (sliceStart env params s order p).1.slot.nScheduled := by
  have htable : SameTable s.slot.mac (earlyRun env params s order).state.slot.mac := by
    rw [earlyRun_mac]
    exact .refl _
  rcases earlyRun_reaches params hpdcch hok h with hfull | hall
  · exact (min_le_left _ _).trans (hfull.trans
      (slicesRun_nScheduled_mono env params _ _ (Nat.zero_le p)))
  have hrelaxed : Relaxed x (earlyRun env params s order).state
      (earlyRun env params s order).items :=
    earlyRun_invariant (fun pre _ _ _ _ hstep => hstep.relaxed hpdcch pre) h
  rcases slicesRun_reaches params hpdcch hok htable hrelaxed p with hfull | hreached
  · exact (min_le_left _ _).trans hfull
  refine (min_le_right _ _).trans ?_
  have hlasting : Lasting fun c => !c.newData :=
    fun c c' hid => congrArg (!·) (lasting_newData c c' hid)
  have hearly : scheduledOf (fun c => !c.newData) (sliceStart env params s order p).2 =
      waiting Placement.early places := by
    have hdone : AllScheduled (fun c => !c.newData) (sliceStart env params s order p).2 :=
      slicesRun_invariant (I := fun _ => AllScheduled fun c => !c.newData)
        (fun _ _ _ _ _ hstep => hstep.allScheduled hlasting) (fun _ _ h => h) p hall
    rw [hdone.scheduledOf_eq]
    exact sliceStart_stands env params hstands p Placement.early
  have hslice : ∀ n, min (waiting (Placement.ofSlice n) places - if left = some n then 1 else 0)
      (grantsBefore params s.slot.mac p n) ≤
        scheduledOf (DlCandidate.ofSlice n) (sliceStart env params s order p).2 := by
    intro n
    have hcount : (earlyRun env params s order).items.countP (DlCandidate.otherOf x n) =
        order.countP (DlCandidate.otherOf x n) :=
      earlyRun_invariant (I := fun _ l => l.countP (DlCandidate.otherOf x n) =
          order.countP (DlCandidate.otherOf x n))
        (fun _ _ _ _ _ hstep hl => (hstep.countP_eq (lasting_otherOf x n)).trans hl) rfl
    have hle := hreached n
    rw [hcount] at hle
    exact (min_le_min_right _ (hleft n)).trans
      (hle.trans (scheduledOf_mono (fun c hc => (otherOf_iff.mp hc).1) _))
  have hcount := sliceStart_counted env params hcounted p
  unfold Counted at hcount
  rw [hcount, scheduledCount_eq, hearly]
  unfold reach
  refine Nat.add_le_add_left ?_ _
  exact (Finset.sum_le_sum fun n _ => hslice n).trans (sum_scheduledOf_le _ _)

end Lower

/-! ### The overrun -/

section Overrun

variable {env env' : SlotEnv} {params : DlSchedParams} {x : ℕ}

/-- A pass that serves a candidate while the validations succeed counts one, whatever the count. -/
theorem newtxRun_overruns {policy : Option ℕ} {rbBudget : ℕ} {s : PassState}
    {order : List DlCandidate} (h : Relaxed x s order)
    (hok : ∀ c, (env.nrDlValidateCcePucch s.slot.validations c).isSome = true)
    (hbudget : 0 < rbBudget → minRbSize ≤ rbBudget - s.used)
    (hserved : ∃ c ∈ order, newtxServes s.slot.mac policy c = true) :
    s.slot.nScheduled <
      (run (newtxVisit env params policy rbBudget) s order).state.slot.nScheduled := by
  induction order with
  | nil =>
    obtain ⟨c, hc, -⟩ := hserved
    exact absurd hc List.not_mem_nil
  | cons c order ih =>
    by_cases hserves : newtxServes s.slot.mac policy c = true
    · have hun : c.scheduled = false := ((newtxServes_iff policy).mp hserves).1
      have hvisit : newtxVisit env params policy rbBudget s c = _ :=
        newtxVisit_of_clear (h.clear c List.mem_cons_self hun)
          (h.layout.size c List.mem_cons_self).1 hserves hbudget
      obtain ⟨hn, -, -⟩ := commitVisit_of_isSome params
        (hok (c.allocate 0 minRbSize c.schedPdsch.mcs))
      have hcount : (newtxVisit env params policy rbBudget s c).state.slot.nScheduled =
          s.slot.nScheduled + 1 := by
        rw [hvisit]
        split_ifs
        · exact hn
        · exact hn
      cases hstop : (newtxVisit env params policy rbBudget s c).stop with
      | true =>
        rw [run_cons_of_stop hstop]
        exact hcount.symm ▸ Nat.lt_succ_self _
      | false =>
        rw [run_cons_of_not_stop hstop]
        have hup := (run_nScheduled_le (newtxVisit_stopsAtLimit env params
          policy rbBudget) (newtxVisit env params policy rbBudget s c).state order).1
        dsimp only
        omega
    · have hvisit : newtxVisit env params policy rbBudget s c = .pass s c := by
        simp [newtxVisit, hserves]
      rw [run_cons_pass hvisit]
      refine ih h.tail ?_
      obtain ⟨a, ha, hserves_a⟩ := hserved
      rcases List.mem_cons.mp ha with rfl | ha
      · exact absurd hserves_a hserves
      · exact ⟨a, ha, hserves_a⟩

/-- The first `K` validations have the same outcome in two environments. -/
structure AgreeUpTo (K : ℕ) (env env' : SlotEnv) : Prop where
  tbs : env'.nrComputeTbs = env.nrComputeTbs
  outcome : ∀ k < K, ∀ c, env.nrDlValidateCcePucch k c = env'.nrDlValidateCcePucch k c

variable {K : ℕ} (h : AgreeUpTo K env env')

theorem VisitStep.validations_le {s : PassState} {c : DlCandidate}
    {v : Visit PassState DlCandidate} (hstep : VisitStep env params s c v) :
    s.slot.validations ≤ v.state.slot.validations := by
  cases hstep with
  | pass hstate _ => rw [hstate]
  | commit rbStart rbSize _ _ _ _ hslot =>
    rw [hslot]
    exact (Nat.le_succ _).trans commitVisit_validations.ge

include h in
theorem exactVisit_agree (wanted : DlCandidate → Bool) (neededRbs : DlCandidate → ℕ)
    (s : PassState) (c : DlCandidate)
    (hle : (exactVisit env params wanted neededRbs s c).state.slot.validations ≤ K) :
    exactVisit env params wanted neededRbs s c = exactVisit env' params wanted neededRbs s c := by
  unfold exactVisit at hle ⊢
  split_ifs at hle ⊢
  · rfl
  · split
    next => rfl
    next block hblock =>
      simp only [hblock] at hle
      rw [commitVisit_validations] at hle
      exact commitVisit_congr (h.outcome _ hle _)

include h in
theorem newtxVisit_agree (policy : Option ℕ) (rbBudget : ℕ) (s : PassState) (c : DlCandidate)
    (hle : (newtxVisit env params policy rbBudget s c).state.slot.validations ≤ K) :
    newtxVisit env params policy rbBudget s c = newtxVisit env' params policy rbBudget s c := by
  unfold newtxVisit at hle ⊢
  by_cases hskip : (!newtxServes s.slot.mac policy c) = true
  · rw [if_pos hskip, if_pos hskip]
  · simp only [if_neg hskip] at hle ⊢
    generalize (if rbBudget > 0 then rbBudget - s.used else 0) = remaining at hle ⊢
    by_cases hbreak : rbBudget > 0 ∧ remaining < minRbSize
    · rw [if_pos hbreak, if_pos hbreak]
    · simp only [if_neg hbreak] at hle ⊢
      by_cases hsmall : (getLimitedFreeBlock s.slot.vrbMap c remaining).1 < minRbSize
      · rw [if_pos hsmall, if_pos hsmall]
      · simp only [if_neg hsmall, newtxRbSize_congr h.tbs] at hle ⊢
        have hvalid : s.slot.validations + 1 ≤ K := by
          refine le_trans ?_ hle
          split_ifs
          · exact commitVisit_validations.ge
          · exact commitVisit_validations.ge
        rw [commitVisit_congr (h.outcome _ hvalid _)]

/-- A pass in two environments is the same while no more validations are made than agree. -/
theorem run_agree {visit visit' : PassState → DlCandidate → Visit PassState DlCandidate}
    (hstep : ∀ s c, VisitStep env params s c (visit s c))
    (hagree : ∀ s c, (visit s c).state.slot.validations ≤ K → visit s c = visit' s c)
    {s : PassState} {order : List DlCandidate}
    (hle : (run visit s order).state.slot.validations ≤ K) :
    run visit s order = run visit' s order := by
  refine run_eq_of_agree (P := fun v => (visit v.1 v.2).state.slot.validations ≤ K)
    (fun s c hv (_ : True) => hagree s c hv) (fun v hv => ?_) (fun _ _ => trivial)
  exact (rel_of_mem_visits (R := fun s t => s.slot.validations ≤ t.slot.validations)
    (fun _ => le_rfl) (fun _ _ _ => le_trans) (fun s c => (hstep s c).validations_le) hv).trans hle

theorem validations_le_run {visit : PassState → DlCandidate → Visit PassState DlCandidate}
    (hstep : ∀ s c, VisitStep env params s c (visit s c)) (s : PassState)
    (order : List DlCandidate) :
    s.slot.validations ≤ (run visit s order).state.slot.validations :=
  run_stateInvariant (I := fun t => s.slot.validations ≤ t.slot.validations)
    (fun t c ht => ht.trans (hstep t c).validations_le) le_rfl

include h in
theorem earlyRun_agree {s : PassState} {order : List DlCandidate}
    (hle : (earlyRun env params s order).state.slot.validations ≤ K) :
    earlyRun env params s order = earlyRun env' params s order := by
  have hfirst : (run (exactVisit env params (fun c => c.isRetx) fun c => c.retxRbSize) s
      order).state.slot.validations ≤ K := by
    refine le_trans ?_ hle
    simp only [earlyRun]
    split_ifs
    · exact le_rfl
    · exact validations_le_run (exactVisit_step env params _ _) _ _
  have heq := run_agree (exactVisit_step env params _ _) (exactVisit_agree h _ _) hfirst
  simp only [earlyRun, ← heq] at hle ⊢
  split_ifs at hle ⊢
  · rfl
  · exact run_agree (exactVisit_step env params _ _) (exactVisit_agree h _ _) hle

include h in
theorem slicesRun_agree {s : PassState} {order : List DlCandidate} {p : ℕ}
    (hle : (slicesRun env params p s order).1.slot.validations ≤ K) :
    slicesRun env params p s order = slicesRun env' params p s order := by
  induction p with
  | zero => rfl
  | succ p ih =>
    have hbefore : (slicesRun env params p s order).1.slot.validations ≤ K := by
      refine le_trans ?_ hle
      simp only [slicesRun]
      split_ifs
      · exact validations_le_run (newtxVisit_step env params _ _)
          { (slicesRun env params p s order).1 with used := 0 } _
      · exact le_rfl
    simp only [slicesRun, policyRun, ← ih hbefore] at hle ⊢
    split_ifs at hle ⊢
    · rw [run_agree (newtxVisit_step env params _ _) (newtxVisit_agree h _ _) hle]
    · rfl

include h in
/-- Two environments bring a call to the pass of entry `p` in the same way while no more
validations are made than agree. -/
theorem sliceStart_agree {s : PassState} {order : List DlCandidate} {p : ℕ}
    (hle : (sliceStart env params s order p).1.slot.validations ≤ K) :
    sliceStart env params s order p = sliceStart env' params s order p := by
  have hearly : (earlyRun env params s order).state.slot.validations ≤ K :=
    le_trans (slicesRun_invariant (I := fun t _ =>
        (earlyRun env params s order).state.slot.validations ≤ t.slot.validations)
      (fun _ _ _ _ _ hstep ht => ht.trans hstep.validations_le) (fun _ _ ht => ht) p le_rfl) hle
  unfold sliceStart at hle ⊢
  rw [← earlyRun_agree h hearly]
  exact slicesRun_agree h hle

end Overrun

/-! ### A cell without competition -/

/-- An environment in which only the candidate `x` can fail its validations; the PF order has it
last. -/
def lateEnv (nrComputeTbs : DlCandidate → ℕ → BitVec 32) (x : ℕ) (fails : ℕ → Bool) : SlotEnv :=
  { crowdedEnv nrComputeTbs ⟨0, 0⟩ with
    nrDlValidateCcePucch := fun k c => if c.rnti = x ∧ fails k = true then none else some fun _ => 0
    pfSort := fun cands =>
      (cands.filter fun c => decide (c.rnti ≠ x)) ++ cands.filter fun c => !decide (c.rnti ≠ x)
    pfSort_perm := fun cands => List.filter_append_perm _ cands }

/-- The environment is one of those of the cell. -/
def OfCell (nrComputeTbs : DlCandidate → ℕ → BitVec 32) (env : SlotEnv) : Prop :=
  ∃ x fails, env = lateEnv nrComputeTbs x fails

theorem OfCell.nrComputeTbs_eq {nrComputeTbs : DlCandidate → ℕ → BitVec 32} {env : SlotEnv}
    (h : OfCell nrComputeTbs env) : env.nrComputeTbs = nrComputeTbs := by
  obtain ⟨x, fails, rfl⟩ := h
  rfl

/-- A candidate at a placement with a bandwidth part of its own. -/
def Placement.alone (j : ℕ) (p : Placement) : DlCandidate where
  rnti := j
  isRetx := !p.newData
  retxRbSize := minRbSize
  pendingBytes := 1
  taApply := false
  bwpStart := minRbSize * j
  bwpSize := minRbSize
  nssai := p.nssai
  skipped := p.skipped
  scheduled := false
  schedPdsch := ⟨0, 0, 0⟩
  allocSlbitmap := 0x3ffc
  allocBeamIdx := p.allocBeamIdx

/-- A slot with empty VRB maps. -/
def SliceState.emptySlot (mac : SliceState) : SlotState := ⟨mac, fun _ _ => 0, 0, 0⟩

/-- Candidates at the placements, with different RNTIs. -/
def aloneUes (places : List Placement) : List DlCandidate :=
  places.zipIdx.map fun e => e.1.alone e.2

section Cell

variable {nrComputeTbs : DlCandidate → ℕ → BitVec 32} {x : ℕ} {fails : ℕ → Bool}
  {places : List Placement}

theorem noPdcch_lateEnv : (lateEnv nrComputeTbs x fails).NoPdcch := by
  intro k c pdcch h
  simp only [lateEnv] at h
  split_ifs at h
  exact (Option.some_inj.mp h).symm

theorem isSome_lateEnv {k : ℕ} {c : DlCandidate} (h : c.rnti ≠ x ∨ fails k = false) :
    ((lateEnv nrComputeTbs x fails).nrDlValidateCcePucch k c).isSome = true := by
  have hnot : ¬ (c.rnti = x ∧ fails k = true) := by
    rintro ⟨hx, hf⟩
    rcases h with h | h
    · exact h hx
    · exact Bool.false_ne_true (h.symm.trans hf)
  simp only [lateEnv, if_neg hnot]
  rfl

theorem placement_alone (j : ℕ) (p : Placement) : (p.alone j).placement = p := by
  cases p
  simp [Placement.alone, DlCandidate.placement, DlCandidate.newData]

theorem map_placement_aloneUes : (aloneUes places).map DlCandidate.placement = places := by
  unfold aloneUes
  rw [List.map_map]
  have hcomp : (DlCandidate.placement ∘ fun e : Placement × ℕ => e.1.alone e.2) = Prod.fst := by
    funext e
    exact placement_alone e.2 e.1
  rw [hcomp, List.zipIdx_map_fst]

theorem map_rnti_aloneUes : (aloneUes places).map DlCandidate.rnti = List.range places.length := by
  unfold aloneUes
  rw [List.map_map]
  have hcomp : (DlCandidate.rnti ∘ fun e : Placement × ℕ => e.1.alone e.2) = Prod.snd := rfl
  rw [hcomp, List.zipIdx_map_snd, List.range_eq_range']

/-- Candidates with bandwidth parts of their own. -/
structure Alone (cands : List DlCandidate) : Prop where
  form : ∀ c ∈ cands, ∃ p j, c = Placement.alone j p
  nodup : (cands.map DlCandidate.rnti).Nodup

theorem alone_aloneUes : Alone (aloneUes places) where
  form c hc := by
    obtain ⟨e, -, rfl⟩ := List.mem_map.mp hc
    exact ⟨e.1, e.2, rfl⟩
  nodup := by
    rw [map_rnti_aloneUes]
    exact List.nodup_range

namespace Alone

variable {cands : List DlCandidate} (h : Alone cands)

include h

theorem unscheduled : Unscheduled cands := by
  intro c hc
  obtain ⟨p, j, rfl⟩ := h.form c hc
  rfl

/-- The bandwidth parts of candidates with different RNTIs are apart. -/
theorem apart : cands.Pairwise fun c c' =>
    c.bwpStart + minRbSize ≤ c'.bwpStart ∨ c'.bwpStart + minRbSize ≤ c.bwpStart := by
  refine (List.pairwise_map.mp h.nodup).imp_of_mem fun {c c'} hc hc' hrnti => ?_
  obtain ⟨p, j, rfl⟩ := h.form c hc
  obtain ⟨p', j', rfl⟩ := h.form c' hc'
  have hle : ∀ m n : ℕ, m < n → minRbSize * m + minRbSize ≤ minRbSize * n :=
    fun m n hlt => Nat.mul_le_mul_left minRbSize hlt
  rcases Nat.lt_or_gt_of_ne hrnti with hlt | hlt
  · exact .inl (hle j j' hlt)
  · exact .inr (hle j' j hlt)

theorem layout (hlate : ∀ c ∈ cands, c.rnti = x → c.newData = true) :
    Layout x (buildPfOrder (lateEnv nrComputeTbs x fails) cands) where
  size := by
    intro c hc
    obtain ⟨p, j, rfl⟩ := h.form c ((mem_buildPfOrder _).mp hc).1
    exact ⟨rfl, rfl⟩
  apart := by
    refine (((lateEnv nrComputeTbs x fails).pfSort_perm _).pairwise_iff fun h => h.symm).mpr ?_
    exact h.apart.filter _
  last := by
    refine List.pairwise_append.mpr ⟨?_, ?_, ?_⟩
    · refine List.Pairwise.imp_of_mem (R := fun _ _ => True) (fun {c c'} hc _ _ hx => ?_)
        (List.pairwise_of_forall fun _ _ => trivial)
      exact absurd hx (of_decide_eq_true (List.mem_filter.mp hc).2)
    · refine List.Pairwise.imp_of_mem (R := fun _ _ => True) (fun {c c'} _ hc' _ _ => ?_)
        (List.pairwise_of_forall fun _ _ => trivial)
      simpa using (List.mem_filter.mp hc').2
    · intro c hc c' _ hx
      exact absurd hx (of_decide_eq_true (List.mem_filter.mp hc).2)
  late := fun c hc => hlate c ((mem_buildPfOrder _).mp hc).1

/-- In a slot where their bandwidth parts are clear the candidates do not compete. -/
theorem relaxed {s : SlotState} (hclear : ∀ c ∈ cands, c.Clear s.vrbMap)
    (hlate : ∀ c ∈ cands, c.rnti = x → c.newData = true) :
    Relaxed x s.enterCall (buildPfOrder (lateEnv nrComputeTbs x fails) cands) :=
  ⟨h.layout hlate, fun c hc _ => hclear c ((mem_buildPfOrder _).mp hc).1⟩

theorem rnti_inj {c c' : DlCandidate} (hc : c ∈ cands) (hc' : c' ∈ cands)
    (heq : c.rnti = c'.rnti) : c = c' :=
  List.inj_on_of_nodup_map h.nodup hc hc' heq

/-- Without the candidate `x` there is one candidate less of its slice. -/
theorem waiting_le_countP_otherOf {left : Option Nssai}
    (hleft : ∀ c ∈ cands, c.rnti = x → left = some c.nssai) (n : Nssai) :
    (waiting (Placement.ofSlice n) (cands.map DlCandidate.placement) -
        if left = some n then 1 else 0) ≤
      (buildPfOrder (lateEnv nrComputeTbs x fails) cands).countP (DlCandidate.otherOf x n) := by
  have hstands : (buildPfOrder (lateEnv nrComputeTbs x fails) cands).countP
      (DlCandidate.ofSlice n) =
        waiting (Placement.ofSlice n) (cands.map DlCandidate.placement) :=
    stands_buildPfOrder (lateEnv nrComputeTbs x fails) cands (Placement.ofSlice n)
  have hnodup : ((buildPfOrder (lateEnv nrComputeTbs x fails) cands).map
      DlCandidate.rnti).Nodup := by
    have hperm := ((lateEnv nrComputeTbs x fails).pfSort_perm
      (cands.filter fun c => !c.skipped)).map DlCandidate.rnti
    exact hperm.nodup_iff.mpr (h.nodup.sublist (List.filter_sublist.map _))
  rw [← hstands]
  generalize hl : buildPfOrder (lateEnv nrComputeTbs x fails) cands = order at hnodup ⊢
  have hone : order.countP (fun c => c.ofSlice n && decide (c.rnti = x)) ≤
      if left = some n then 1 else 0 := by
    split_ifs with hn
    · refine le_trans ?_ (List.nodup_iff_count_le_one.mp hnodup x)
      rw [List.count, List.countP_map]
      refine List.countP_mono_left fun c _ hc => ?_
      simp only [Bool.and_eq_true, decide_eq_true_eq] at hc
      simp [hc.2]
    · refine Nat.le_zero.mpr (List.countP_eq_zero.mpr fun c hc hboth => hn ?_)
      simp only [DlCandidate.ofSlice, Bool.and_eq_true, decide_eq_true_eq] at hboth
      rw [hleft c ((mem_buildPfOrder _).mp (hl ▸ hc)).1 hboth.2, hboth.1.2]
  have hsplit : order.countP (DlCandidate.ofSlice n) =
      order.countP (DlCandidate.otherOf x n) +
        order.countP fun c => c.ofSlice n && decide (c.rnti = x) := by
    have hother : DlCandidate.otherOf x n = fun c => c.ofSlice n && decide (c.rnti ≠ x) := rfl
    rw [List.countP_eq_countP_filter_add _ _ fun c => decide (c.rnti ≠ x), List.countP_filter,
      List.countP_filter, hother]
    simp
  omega

end Alone

theorem clear_emptySlot (mac : SliceState) (c : DlCandidate) : c.Clear mac.emptySlot.vrbMap := by
  intro rb _
  simp [SliceState.emptySlot, VrbMap.isFree]

/-- A candidate that always fails its validation stays unscheduled. -/
theorem VisitStep.unscheduled_late {params : DlSchedParams} {pre post : List DlCandidate}
    {s : PassState} {c : DlCandidate} {v : Visit PassState DlCandidate}
    (hstep : VisitStep (lateEnv nrComputeTbs x fun _ => true) params s c v)
    (h : ∀ a ∈ pre ++ c :: post, a.rnti = x → a.scheduled = false) :
    ∀ a ∈ pre ++ v.item :: post, a.rnti = x → a.scheduled = false := by
  have hid := hstep.identity_eq
  intro a ha hx
  rcases List.mem_append.mp ha with ha | ha
  · exact h a (List.mem_append_left _ ha) hx
  · rcases List.mem_cons.mp ha with rfl | ha
    · cases hstep with
      | pass _ hitem =>
        rw [hitem] at hx ⊢
        exact h c (by simp) hx
      | commit rbStart rbSize hun _ hitem =>
        have hrnti : v.item.identity.rnti = c.identity.rnti := by rw [hid]
        have hfail : (lateEnv nrComputeTbs x fun _ => true).nrDlValidateCcePucch
            s.slot.validations (c.allocate rbStart rbSize c.schedPdsch.mcs) = none :=
          if_pos ⟨hrnti.symm.trans hx, rfl⟩
        rw [hitem]
        simp only [commitVisit, commitAllocOrStop_of_none hfail]
        exact hun
    · exact h a (by simp [ha]) hx

end Cell

/-! ### The exact condition -/

section Exact

variable {nrComputeTbs : DlCandidate → ℕ → BitVec 32} {params : DlSchedParams} {mac : SliceState}
  {places : List Placement}

theorem sliceStart_map_identity (env : SlotEnv) (s : PassState) (order : List DlCandidate)
    (p : ℕ) : (sliceStart env params s order p).2.map DlCandidate.identity =
      order.map DlCandidate.identity :=
  slicesRun_invariant (I := fun _ l => l.map DlCandidate.identity =
      order.map DlCandidate.identity)
    (fun _ _ _ _ _ hstep hl => hstep.map_identity.trans hl) (fun _ _ h => h) p
    (earlyRun_invariant (I := fun _ l => l.map DlCandidate.identity =
        order.map DlCandidate.identity)
      (fun _ _ _ _ _ hstep hl => hstep.map_identity.trans hl) rfl)

theorem sliceStart_relaxed {env : SlotEnv} (hpdcch : env.NoPdcch) {x : ℕ} {s : PassState}
    {order : List DlCandidate} (h : Relaxed x s order) (p : ℕ) :
    Relaxed x (sliceStart env params s order p).1 (sliceStart env params s order p).2 :=
  slicesRun_invariant (fun pre _ _ _ _ hstep => hstep.relaxed hpdcch pre)
    (fun _ _ h => ⟨h.layout, h.clear⟩) p
    (earlyRun_invariant (fun pre _ _ _ _ hstep => hstep.relaxed hpdcch pre) h)

/-- The count of a call is at least that before any of its passes. -/
theorem sliceStart_le_callRun (env : SlotEnv) (s : PassState) (order : List DlCandidate) {p n : ℕ}
    (hp : p ≤ n) : (sliceStart env params s order p).1.slot.nScheduled ≤
      (callRun env params n s order).state.slot.nScheduled :=
  (slicesRun_nScheduled_mono env params _ _ hp).trans
    (run_nScheduled_le (newtxVisit_stopsAtLimit env params none 0)
      { (sliceStart env params s order n).1 with used := 0 } _).1

theorem exists_waiting {cands : List DlCandidate} {q : Placement → Bool}
    (h : 0 < waiting q (cands.map DlCandidate.placement)) :
    ∃ c ∈ cands, c.skipped = false ∧ q c.placement = true := by
  obtain ⟨p, hp, hboth⟩ := List.countP_pos_iff.mp h
  obtain ⟨c, hc, rfl⟩ := List.mem_map.mp hp
  simp only [Bool.and_eq_true, Bool.not_eq_true'] at hboth
  exact ⟨c, hc, hboth⟩

theorem counted_enterCall (env : SlotEnv) (s : SlotState) {cands : List DlCandidate}
    (h : Unscheduled cands) : Counted s.enterCall (buildPfOrder env cands) := by
  have hnone : Unscheduled (buildPfOrder env cands) :=
    fun c hc => h c ((mem_buildPfOrder env).mp hc).1
  unfold Counted
  rw [scheduledCount_eq, hnone.scheduledOf_eq_zero, hnone.scheduledOf_eq_zero]
  rfl

theorem hasPass_of_grantsOf_pos {p : ℕ} (h : 0 < grantsOf params mac p) : mac.HasPass params p := by
  by_contra hnot
  rw [grantsOf, if_neg hnot] at h
  exact lt_irrefl 0 h

theorem minRbSize_le_of_grantsOf_pos {p : ℕ} (h : 0 < grantsOf params mac p) :
    minRbSize ≤ totalBudget params (mac.dlSlicePolicy.entry p).dedicatedPrbRatio := by
  rw [grantsOf, if_pos (hasPass_of_grantsOf_pos h)] at h
  exact Nat.le_of_not_lt fun hlt => h.ne' (Nat.div_eq_of_lt hlt)

/-- The state behind the pass of an entry. -/
theorem sliceStart_succ_of_hasPass {env : SlotEnv} {s : PassState} {order : List DlCandidate}
    {p : ℕ} {start : PassState × List DlCandidate}
    (hstart : sliceStart env params s order p = start) (htable : SameTable mac start.1.slot.mac)
    (hpass : mac.HasPass params p) : sliceStart env params s order (p + 1) =
      ((policyRun env params p start.1 start.2).state,
        (policyRun env params p start.1 start.2).items) := by
  unfold sliceStart at hstart ⊢
  rw [slicesRun, hstart, if_pos ((htable.hasPass_iff params p).mpr hpass)]

theorem policyRun_overruns {env : SlotEnv} {x p : ℕ} {start : PassState × List DlCandidate}
    (htable : SameTable mac start.1.slot.mac) (hgrants : 0 < grantsOf params mac p)
    (hrelaxed : Relaxed x start.1 start.2)
    (hok : ∀ c, (env.nrDlValidateCcePucch start.1.slot.validations c).isSome = true)
    (hserved : ∃ c ∈ start.2, newtxServes mac (some p) c = true) :
    start.1.slot.nScheduled <
      (policyRun env params p start.1 start.2).state.slot.nScheduled := by
  refine newtxRun_overruns (s := { start.1 with used := 0 })
    ⟨hrelaxed.layout, hrelaxed.clear⟩ hok (fun _ => ?_) ?_
  · rw [htable.policy]
    exact minRbSize_le_of_grantsOf_pos hgrants
  · obtain ⟨c, hc, hserves⟩ := hserved
    exact ⟨c, hc, (htable.newtxServes_eq (some p) c).trans hserves⟩

section Cands

variable {cands : List DlCandidate} (halone : Alone cands) {s : SlotState} (hmac : s.mac = mac)
  (hclear : ∀ c ∈ cands, c.Clear s.vrbMap)

include halone hmac hclear

variable (nrComputeTbs) in
/-- Some call comes to the pass of entry `p` with as many candidates scheduled as can be reached, a
given candidate of new data still to go, and only successful validations ahead. -/
theorem exists_fullStart {c : DlCandidate} (hc : c ∈ cands) (hskip : c.skipped = false)
    (hnew : c.newData = true) {p limit : ℕ} (hlimit : limit ≤ params.maxNumUe)
    (hreach : limit ≤
      reach params mac (cands.map DlCandidate.placement) p (some c.nssai)) :
    ∃ (env : SlotEnv) (x : ℕ), OfCell nrComputeTbs env ∧
      ∃ start : PassState × List DlCandidate,
        sliceStart env params s.enterCall (buildPfOrder env cands) p = start ∧
        Relaxed x start.1 start.2 ∧ limit ≤ start.1.slot.nScheduled ∧
        (∀ k a, start.1.slot.validations ≤ k → (env.nrDlValidateCcePucch k a).isSome = true) ∧
        ∃ a ∈ start.2, a.identity = c.identity ∧ a.scheduled = false := by
  have hself : ∀ a ∈ cands, a.rnti = c.rnti → a = c := fun a ha hx => halone.rnti_inj ha hc hx
  -- first let the candidate fail for good, then only as often as it does before its pass
  let never := lateEnv nrComputeTbs c.rnti fun _ => true
  let order := buildPfOrder never cands
  let start := sliceStart never params s.enterCall order p
  let late := lateEnv nrComputeTbs c.rnti fun k => decide (k < start.1.slot.validations)
  have hagree : AgreeUpTo start.1.slot.validations never late := by
    refine ⟨rfl, fun k hk a => ?_⟩
    simp [never, late, lateEnv, hk]
  have hrelaxed : Relaxed c.rnti s.enterCall order :=
    halone.relaxed hclear fun a ha hx => hself a ha hx ▸ hnew
  refine ⟨late, c.rnti, ⟨_, _, rfl⟩, start, (sliceStart_agree hagree le_rfl).symm,
    sliceStart_relaxed noPdcch_lateEnv hrelaxed p, ?_,
    fun k a hk => isSome_lateEnv (.inr (by simp [hk])), ?_⟩
  · have hle := le_sliceStart_nScheduled params (noPdcch_lateEnv : never.NoPdcch)
      (fun k a ha => isSome_lateEnv (.inl ha)) (counted_enterCall never s halone.unscheduled)
      (stands_buildPfOrder never cands) hrelaxed p (some c.nssai)
      (halone.waiting_le_countP_otherOf fun a ha hx => by rw [hself a ha hx])
    have hmac' : s.enterCall.slot.mac = mac := hmac
    rw [hmac'] at hle
    exact (le_min hlimit hreach).trans hle
  · have hin : c.identity ∈ start.2.map DlCandidate.identity := by
      rw [sliceStart_map_identity]
      exact List.mem_map_of_mem ((mem_buildPfOrder never).mpr ⟨hc, hskip⟩)
    obtain ⟨a, ha, hid⟩ := List.mem_map.mp hin
    refine ⟨a, ha, hid, ?_⟩
    have hnone : ∀ a ∈ start.2, a.rnti = c.rnti → a.scheduled = false :=
      slicesRun_invariant (I := fun _ l => ∀ a ∈ l, a.rnti = c.rnti → a.scheduled = false)
        (fun _ _ _ _ _ hstep => hstep.unscheduled_late) (fun _ _ h => h) p
        (earlyRun_invariant (I := fun _ l => ∀ a ∈ l, a.rnti = c.rnti → a.scheduled = false)
          (fun _ _ _ _ _ hstep => hstep.unscheduled_late) fun a ha _ =>
            halone.unscheduled a ((mem_buildPfOrder never).mp ha).1)
    have hrnti : a.identity.rnti = c.identity.rnti := by rw [hid]
    exact hnone a ha hrnti

variable (nrComputeTbs params) in
/-- Some call schedules, up to the pass of entry `p`, as many candidates as can be reached, with
successful validations only. -/
theorem exists_openStart (p : ℕ) :
    ∃ (env : SlotEnv) (x : ℕ), OfCell nrComputeTbs env ∧
      (∀ k a, (env.nrDlValidateCcePucch k a).isSome = true) ∧
      (∀ p', Relaxed x (sliceStart env params s.enterCall (buildPfOrder env cands) p').1
        (sliceStart env params s.enterCall (buildPfOrder env cands) p').2) ∧
      min params.maxNumUe (reach params mac (cands.map DlCandidate.placement) p none) ≤
        (sliceStart env params s.enterCall (buildPfOrder env cands) p).1.slot.nScheduled := by
  -- no candidate has the RNTI that could fail
  obtain ⟨x, hx⟩ := Infinite.exists_notMem_finset (cands.map DlCandidate.rnti).toFinset
  have hother : ∀ a ∈ cands, a.rnti ≠ x := by
    rintro a ha rfl
    exact hx (List.mem_toFinset.mpr (List.mem_map_of_mem ha))
  let env := lateEnv nrComputeTbs x fun _ => false
  have hrelaxed : Relaxed x s.enterCall (buildPfOrder env cands) :=
    halone.relaxed hclear fun a ha hxa => absurd hxa (hother a ha)
  have hle := le_sliceStart_nScheduled params (noPdcch_lateEnv : env.NoPdcch)
    (fun k a _ => isSome_lateEnv (.inr rfl)) (counted_enterCall env s halone.unscheduled)
    (stands_buildPfOrder env cands) hrelaxed p none
    (halone.waiting_le_countP_otherOf fun a ha hxa => absurd hxa (hother a ha))
  have hmac' : s.enterCall.slot.mac = mac := hmac
  rw [hmac'] at hle
  exact ⟨env, x, ⟨_, _, rfl⟩, fun k a => isSome_lateEnv (.inr rfl),
    sliceStart_relaxed noPdcch_lateEnv hrelaxed, hle⟩

/-- When the helpers before the pass of an entry can reach the limit, leaving out one candidate of
its slice, some call schedules that candidate beyond the limit. -/
theorem exists_overrun_of_policy {p n : ℕ} (hp : p < n) (hgrants : 0 < grantsOf params mac p)
    (hwaiting : 0 < waiting (Placement.ofSlice (mac.dlSlicePolicy.entry p).nssai)
      (cands.map DlCandidate.placement))
    (hreach : params.maxNumUe ≤ reach params mac (cands.map DlCandidate.placement) p
      (some (mac.dlSlicePolicy.entry p).nssai)) :
    ∃ env : SlotEnv, env.nrComputeTbs = nrComputeTbs ∧
      params.maxNumUe < (callRun env params n s.enterCall
        (buildPfOrder env cands)).state.slot.nScheduled := by
  obtain ⟨c, hc, hskip, hof⟩ := exists_waiting hwaiting
  obtain ⟨hnew, hnssai⟩ := Bool.and_eq_true_iff.mp hof
  have hnssai : c.nssai = (mac.dlSlicePolicy.entry p).nssai := of_decide_eq_true hnssai
  obtain ⟨env, x, hcell, start, hstart, hrelaxed, hfull, hok, a, ha, hid, hun⟩ :=
    exists_fullStart nrComputeTbs halone hmac hclear hc hskip hnew le_rfl (hnssai ▸ hreach)
  refine ⟨env, hcell.nrComputeTbs_eq, lt_of_lt_of_le ?_ (sliceStart_le_callRun env _ _ hp)⟩
  have htable : SameTable mac start.1.slot.mac := by
    rw [← hstart, ← hmac]
    exact sliceStart_sameTable env params s.enterCall _ p
  have hserves : newtxServes mac (some p) a = true := by
    have ha_nssai : a.identity.nssai = c.identity.nssai := by rw [hid]
    exact (newtxServes_iff (some p)).mpr
      ⟨hun, (lasting_newData c a hid).trans hnew, ha_nssai.trans hnssai⟩
  have hgrow := policyRun_overruns htable hgrants hrelaxed (fun a => hok _ a le_rfl)
    ⟨a, ha, hserves⟩
  rw [sliceStart_succ_of_hasPass hstart htable (hasPass_of_grantsOf_pos hgrants)]
  exact hfull.trans_lt hgrow

end Cands

/-- The passes of the entries leave the candidates of a slice without a policy alone. -/
theorem slicesRun_guest {env : SlotEnv} {n : ℕ} (hn : n ≤ mac.entries) {s : PassState}
    (htable : SameTable mac s.slot.mac) (order : List DlCandidate) :
    (slicesRun env params n s order).2.filter (fun c => Placement.guest mac c.placement) =
      order.filter fun c => Placement.guest mac c.placement := by
  refine slicesRun_filter env params (lasting_placement _) htable order ?_
  intro k hk hpass c hserves
  obtain ⟨-, -, hnssai⟩ := (newtxServes_iff (some k)).mp hserves
  have hentries : k < mac.entries := by omega
  unfold SliceState.entries at hentries
  split_ifs at hentries with hen
  · have hgov : mac.Governs c.nssai k := ⟨hentries, hpass.1, hnssai.symm⟩
    have hsome := hgov.findSlicePolicy_isSome hen
    simp [Placement.guest, DlCandidate.placement, Option.isNone_eq_false_iff, hsome]
  · omega

/-- When the helpers before the last pass can reach the limit, some call schedules a candidate of a
slice without a policy beyond the limit. -/
theorem exists_overrun_of_guest {cands : List DlCandidate} (halone : Alone cands) {s : SlotState}
    (hmac : s.mac = mac) (hclear : ∀ c ∈ cands, c.Clear s.vrbMap) {n : ℕ} (hn : n ≤ mac.entries)
    (hwaiting : 0 < waiting (Placement.guest mac) (cands.map DlCandidate.placement))
    (hreach : params.maxNumUe ≤
      reach params mac (cands.map DlCandidate.placement) n none) :
    ∃ env : SlotEnv, env.nrComputeTbs = nrComputeTbs ∧
      params.maxNumUe < (callRun env params n s.enterCall
        (buildPfOrder env cands)).state.slot.nScheduled := by
  obtain ⟨c, hc, hskip, hguest⟩ := exists_waiting hwaiting
  obtain ⟨env, x, hcell, hok, hrelaxed, hfull⟩ :=
    exists_openStart nrComputeTbs params halone hmac hclear n
  have hstart := hrelaxed n
  have htable : SameTable mac
      (sliceStart env params s.enterCall (buildPfOrder env cands) n).1.slot.mac := by
    rw [← hmac]
    exact sliceStart_sameTable env params s.enterCall (buildPfOrder env cands) n
  have hin : c ∈ (sliceStart env params s.enterCall (buildPfOrder env cands) n).2 := by
    have hfirst : c ∈ (earlyRun env params s.enterCall (buildPfOrder env cands)).items := by
      have hfilter : c ∈ (buildPfOrder env cands).filter DlCandidate.newData :=
        List.mem_filter.mpr ⟨(mem_buildPfOrder env).mpr ⟨hc, hskip⟩,
          (Bool.and_eq_true_iff.mp hguest).1⟩
      rw [← earlyRun_filter] at hfilter
      exact (List.mem_filter.mp hfilter).1
    have hsame : SameTable mac
        (earlyRun env params s.enterCall (buildPfOrder env cands)).state.slot.mac := by
      rw [earlyRun_mac, ← hmac]
      exact .refl _
    have hfilter : c ∈ (earlyRun env params s.enterCall (buildPfOrder env cands)).items.filter
        fun c => Placement.guest mac c.placement := List.mem_filter.mpr ⟨hfirst, hguest⟩
    rw [← slicesRun_guest hn hsame] at hfilter
    exact (List.mem_filter.mp hfilter).1
  refine ⟨env, hcell.nrComputeTbs_eq, lt_of_le_of_lt ((min_eq_left hreach).ge.trans hfull) ?_⟩
  refine newtxRun_overruns (s := { (sliceStart env params s.enterCall
    (buildPfOrder env cands) n).1 with used := 0 }) ⟨hstart.layout, hstart.clear⟩
    (fun a => hok _ a) (fun h => absurd h (lt_irrefl 0)) ⟨c, hin, ?_⟩
  rw [htable.newtxServes_eq]
  obtain ⟨hnew, hfind⟩ := Bool.and_eq_true_iff.mp hguest
  exact (newtxServes_iff none).mpr
    ⟨halone.unscheduled c hc, hnew, Option.isNone_iff_eq_none.mp hfind⟩

variable (nrComputeTbs) in
/-- Without room for the last candidate of some pass, some call exceeds the limit. -/
theorem exists_overrun {n : ℕ} (hn : n ≤ mac.entries) (h : ¬ RoomForLast params mac n places) :
    ∃ env : SlotEnv, env.nrComputeTbs = nrComputeTbs ∧
      params.maxNumUe < (callRun env params n mac.emptySlot.enterCall
        (buildPfOrder env (aloneUes places))).state.slot.nScheduled := by
  have hplaces : (aloneUes places).map DlCandidate.placement = places := map_placement_aloneUes
  have hclear : ∀ c ∈ aloneUes places, c.Clear mac.emptySlot.vrbMap :=
    fun c _ => clear_emptySlot mac c
  rw [← hplaces] at h
  by_contra hnone
  refine h ⟨fun p hp hgrants hwaiting => ?_, fun hwaiting => ?_⟩
  · exact Nat.lt_of_not_le fun hreach => hnone
      (exists_overrun_of_policy alone_aloneUes rfl hclear hp hgrants hwaiting hreach)
  · exact Nat.lt_of_not_le fun hreach => hnone
      (exists_overrun_of_guest alone_aloneUes rfl hclear hn hwaiting hreach)

/-- A policy marks at most `max_num_ue` candidates at the placements as scheduled, for every
initial state with the slice policies, every outcome of the validations and every order the sorts
can leave. -/
def UeLimited (policy : SlotEnv → DlSchedParams → SlotState → List DlCandidate → PolicyCall)
    (nrComputeTbs : DlCandidate → ℕ → BitVec 32) (params : DlSchedParams) (mac : SliceState)
    (places : List Placement) : Prop :=
  ∀ (env : SlotEnv) (s : SlotState) (cands : List DlCandidate), env.nrComputeTbs = nrComputeTbs →
    s.mac = mac → cands.map DlCandidate.placement = places → Unscheduled cands →
    scheduledCount (policy env params s cands).cands ≤ params.maxNumUe

theorem scheduledCount_call (env : SlotEnv) (s : SlotState) {cands : List DlCandidate}
    (h : Unscheduled cands) (n : ℕ) :
    scheduledCount ((callRun env params n s.enterCall (buildPfOrder env cands)).items ++
      cands.filter fun c => c.skipped) =
      (callRun env params n s.enterCall (buildPfOrder env cands)).state.slot.nScheduled := by
  have hcount : Counted (callRun env params n s.enterCall (buildPfOrder env cands)).state
      (callRun env params n s.enterCall (buildPfOrder env cands)).items :=
    callRun_invariant (fun _ _ _ _ _ hstep => hstep.counted) (fun _ _ h => h) n
      (counted_enterCall env s h)
  have hskipped : scheduledCount (cands.filter fun c => c.skipped) = 0 :=
    List.countP_eq_zero.mpr fun c hc => by simp [h c (List.mem_filter.mp hc).1]
  unfold Counted at hcount
  rw [hcount]
  unfold scheduledCount at hskipped ⊢
  rw [List.countP_append, hskipped, Nat.add_zero]

/-- Calls that run the passes of `n` entries keep to the limit exactly when there is room for the
last candidate of every pass. -/
theorem ueLimited_callRun (hmax : 1 ≤ params.maxNumUe) {n : ℕ} (hn : n ≤ mac.entries)
    {policy : SlotEnv → DlSchedParams → SlotState → List DlCandidate → PolicyCall}
    (hpolicy : ∀ env s cands, s.mac = mac → (policy env params s cands).cands =
      (callRun env params n s.enterCall (buildPfOrder env cands)).items ++
        cands.filter fun c => c.skipped) :
    UeLimited policy nrComputeTbs params mac places ↔ RoomForLast params mac n places := by
  constructor
  · intro h
    by_contra hnot
    obtain ⟨env, htbs, hover⟩ := exists_overrun nrComputeTbs hn hnot
    have hle := h env mac.emptySlot (aloneUes places) htbs rfl map_placement_aloneUes
      alone_aloneUes.unscheduled
    rw [hpolicy env mac.emptySlot _ rfl,
      scheduledCount_call env _ alone_aloneUes.unscheduled] at hle
    exact absurd hover (Nat.not_lt.mpr hle)
  · rintro hroom env s cands - rfl rfl hnone
    rw [hpolicy env s cands rfl, scheduledCount_call env s hnone]
    refine callRun_nScheduled_le hmax rfl ?_ (stands_buildPfOrder env cands) hroom
    exact fun c hc => hnone c ((mem_buildPfOrder env).mp hc).1

end Exact

/-- Both policies keep to `max_num_ue`, whatever the VRB maps and the validations, exactly when
before every pass that still has a candidate the helpers run so far cannot have reached it. -/
theorem ueLimited_iff (nrComputeTbs : DlCandidate → ℕ → BitVec 32) {params : DlSchedParams}
    (hmax : 1 ≤ params.maxNumUe) (mac : SliceState) (places : List Placement) :
    (UeLimited nrDlSlicePrbPolicy nrComputeTbs params mac places ↔
        RoomForLast params mac mac.entries places) ∧
      (UeLimited nrDlProportionalFair nrComputeTbs params mac places ↔
        RoomForLast params mac 0 places) := by
  constructor
  · refine ueLimited_callRun hmax le_rfl ?_
    rintro env s cands rfl
    exact (nrDlSlicePrbPolicy_eq_callRun env params s cands).2
  · refine ueLimited_callRun hmax (Nat.zero_le _) ?_
    rintro env s cands -
    exact (nrDlProportionalFair_eq_callRun env params s cands).2

/-- One UE of the 40 % slice, with a limit of one UE, is within the limit. -/
theorem ueLimited_loadedUe :
    UeLimited nrDlSlicePrbPolicy flatTbs { twoBeams with maxNumUe := 1 } SliceState.oneSlice
      [(loadedUe 1 0).placement] := by
  have hmax : 1 ≤ ({ twoBeams with maxNumUe := 1 } : DlSchedParams).maxNumUe := le_rfl
  refine (ueLimited_iff flatTbs hmax SliceState.oneSlice [(loadedUe 1 0).placement]).1.mpr
    ⟨fun p hp _ _ => ?_, fun h => ?_⟩
  · obtain rfl : p = 0 := Nat.lt_one_iff.mp hp
    decide
  · exact absurd h (by decide)

/-- A UE with a retransmission. -/
def retxUe (rnti : ℕ) : DlCandidate := { loadedUe rnti 0 with isRetx := true, retxRbSize := 10 }

/-- With a limit of one UE, the retransmission reaches the limit and the new data of another UE is
scheduled all the same, by both policies. -/
theorem not_ueLimited_retx :
    Unscheduled [retxUe 1, loadedUe 2 0] ∧ Unscheduled [retxUe 1, guestUe 2] ∧
      ¬ scheduledCount (nrDlSlicePrbPolicy openEnv { twoBeams with maxNumUe := 1 }
        SliceState.oneSlice.emptySlot [retxUe 1, loadedUe 2 0]).cands ≤ 1 ∧
      ¬ scheduledCount (nrDlProportionalFair openEnv { twoBeams with maxNumUe := 1 }
        SliceState.oneSlice.emptySlot [retxUe 1, guestUe 2]).cands ≤ 1 := by
  refine ⟨by simp [Unscheduled, retxUe, loadedUe],
    by simp [Unscheduled, retxUe, guestUe, loadedUe], ?_, ?_⟩
  · decide +kernel
  · decide +kernel

end LlmHric.Mac
