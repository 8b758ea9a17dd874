import LlmHric.Mac.UeOverrun

/-! The accounts of a slice go wrong where a commit of its pass fails, and where a commit fills the
slot. Both are decided by what a call is given: the candidates, the table with its budgets, the
limit, and whether the validations can fail. -/

namespace LlmHric.Mac

open Sweep

/-- The pass of an entry can schedule a candidate: it has a grant, and its slice has new data. -/
structure PassServes (params : DlSchedParams) (mac : SliceState) (places : List Placement) (i : ℕ) :
    Prop where
  entry : i < mac.entries
  grants : 0 < grantsOf params mac i
  waiting : 0 < waiting (Placement.ofSlice (mac.dlSlicePolicy.entry i).nssai) places

/-- From the `K`-th validation on, no new data of the slice fails its validation. -/
def SlotEnv.AdmitsFrom (env : SlotEnv) (n : Nssai) (K : ℕ) : Prop :=
  ∀ k c, K ≤ k → c.newData = true → c.nssai = n → env.nrDlValidateCcePucch k c ≠ none

section Commits

variable {env : SlotEnv} {params : DlSchedParams} {policy : Option ℕ} {rbBudget : ℕ}

/-- A round with an attempt serves its candidate, within the budget. -/
theorem newtxVisit_of_attempt {s : PassState} {c : DlCandidate} {a : Attempt}
    (h : (newtxVisit env params policy rbBudget s c).state.attempts = s.attempts ++ [a]) :
    newtxServes s.slot.mac policy c = true ∧ (0 < rbBudget → minRbSize ≤ rbBudget - s.used) ∧
      (∃ rbStart rbSize, a.outcome = env.nrDlValidateCcePucch s.slot.validations
        (c.allocate rbStart rbSize c.schedPdsch.mcs)) ∧
      (a.outcome ≠ none → (newtxVisit env params policy rbBudget s c).state.slot.nScheduled =
        s.slot.nScheduled + 1 ∧
          (newtxVisit env params policy rbBudget s c).item.scheduled = true) := by
  rcases newtxVisit_cases env params policy rbBudget s c with
    heq | ⟨-, -, heq⟩ | ⟨hserves, rbStart, rbSize, -, hmin, hmax, heq⟩
  · rw [heq] at h
    simp [Visit.pass] at h
  · rw [heq] at h
    simp at h
  · have hattempt : a = s.attempt env c rbStart rbSize := by
      refine append_singleton_inj (h.symm.trans ?_)
      rw [heq]
      split_ifs
      · rfl
      · rfl
    have hcount : (newtxVisit env params policy rbBudget s c).state.slot.nScheduled =
        (commitVisit env params s c rbStart rbSize).state.slot.nScheduled ∧
        (newtxVisit env params policy rbBudget s c).item =
          (commitVisit env params s c rbStart rbSize).item := by
      rw [heq]
      split_ifs
      · exact ⟨rfl, rfl⟩
      · exact ⟨rfl, rfl⟩
    subst hattempt
    refine ⟨hserves, fun hpos => hmin.trans (hmax hpos), ⟨rbStart, rbSize, rfl⟩, fun hok => ?_⟩
    obtain ⟨hn, hsched, -⟩ := commitVisit_of_isSome params (Option.isSome_iff_ne_none.mpr hok)
    rw [hcount.1, hcount.2]
    exact ⟨hn, hsched⟩

theorem run_nScheduled_of_room {s : PassState} {order : List DlCandidate}
    (h : ∀ v ∈ (run (newtxVisit env params policy rbBudget) s order).visits, ∀ a,
      (newtxVisit env params policy rbBudget v.1 v.2).state.attempts = v.1.attempts ++ [a] →
        a.outcome ≠ none → v.1.slot.nScheduled + 1 < params.maxNumUe) :
    (run (newtxVisit env params policy rbBudget) s order).state.slot.nScheduled =
        s.slot.nScheduled ∨
      (run (newtxVisit env params policy rbBudget) s order).state.slot.nScheduled <
        params.maxNumUe := by
  have hround : ∀ t c, (∀ a, (newtxVisit env params policy rbBudget t c).state.attempts =
      t.attempts ++ [a] → a.outcome ≠ none → t.slot.nScheduled + 1 < params.maxNumUe) →
      (newtxVisit env params policy rbBudget t c).state.slot.nScheduled = t.slot.nScheduled ∨
        (newtxVisit env params policy rbBudget t c).state.slot.nScheduled < params.maxNumUe := by
    intro t c hroom
    rcases newtxVisit_cases env params policy rbBudget t c with
      heq | ⟨-, -, heq⟩ | ⟨hserves, rbStart, rbSize, -, -, -, heq⟩
    · exact .inl (by rw [heq]; rfl)
    · exact .inl (by rw [heq])
    · have hattempts : (newtxVisit env params policy rbBudget t c).state.attempts =
          t.attempts ++ [t.attempt env c rbStart rbSize] := by
        rw [heq]
        split_ifs
        · rfl
        · rfl
      by_cases hok : (t.attempt env c rbStart rbSize).outcome = none
      · left
        have hslot : (commitVisit env params t c rbStart rbSize).state.slot.nScheduled =
            t.slot.nScheduled := by
          simp only [commitVisit, commitAllocOrStop_of_none hok]
        rw [heq]
        split_ifs
        · exact hslot
        · exact hslot
      · exact .inr (((newtxVisit_of_attempt hattempts).2.2.2 hok).1 ▸ hroom _ hattempts hok)
  induction order generalizing s with
  | nil => exact .inl rfl
  | cons c order ih =>
    cases hstop : (newtxVisit env params policy rbBudget s c).stop with
    | true =>
      rw [run_cons_of_stop hstop] at h ⊢
      exact hround s c (h (s, c) List.mem_cons_self)
    | false =>
      rw [run_cons_of_not_stop hstop] at h ⊢
      have hhead := hround s c (h (s, c) List.mem_cons_self)
      have hrest := ih fun v hv => h v (List.mem_cons_of_mem _ hv)
      dsimp only
      omega

end Commits

/-! ### The pass of an entry -/

section Pass

variable {env : SlotEnv} {params : DlSchedParams} {s : SlotState} {cands : List DlCandidate}
  {i : ℕ}

theorem beforePass_eq_sliceStart (env : SlotEnv) (params : DlSchedParams) (s : SlotState)
    (cands : List DlCandidate) (i : ℕ) : beforePass env params s cands i =
      sliceStart env params s.enterCall (buildPfOrder env cands) i := rfl

/-- An entry within the table that has a budget has a pass. -/
theorem passOf_eq_policyRun (hi : i < s.mac.entries) (hpass : s.mac.HasPass params i) :
    passOf env params s cands i =
      policyRun env params i (beforePass env params s cands i).1
        (beforePass env params s cands i).2 := by
  have htable := beforePass_sameTable env params s cands i
  unfold passOf policyRun passVisit
  dsimp only
  rw [if_pos ⟨hi, hpass⟩, htable.policy]

/-- The state behind the pass of an entry is where the next pass starts. -/
theorem passOf_state_eq (hi : i < s.mac.entries) (hpass : s.mac.HasPass params i) :
    (passOf env params s cands i).state = (beforePass env params s cands (i + 1)).1 := by
  have htable := beforePass_sameTable env params s cands i
  rw [passOf_eq_policyRun hi hpass, beforePass_eq_sliceStart env params s cands (i + 1),
    sliceStart_succ_of_hasPass (beforePass_eq_sliceStart env params s cands i).symm htable hpass]

/-- A pass whose successful commits leave the slot below its limit either counts nothing or ends
below the limit. -/
theorem passOf_nScheduled_of_room (hi : i < s.mac.entries) (hpass : s.mac.HasPass params i)
    (h : ∀ v ∈ (passOf env params s cands i).visits, ∀ a,
      (passVisit env params s i v.1 v.2).state.attempts = v.1.attempts ++ [a] →
        a.outcome ≠ none → v.1.slot.nScheduled + 1 < params.maxNumUe) :
    (passOf env params s cands i).state.slot.nScheduled =
        (beforePass env params s cands i).1.slot.nScheduled ∨
      (passOf env params s cands i).state.slot.nScheduled < params.maxNumUe := by
  have hrun : passOf env params s cands i = run (passVisit env params s i)
      { (beforePass env params s cands i).1 with used := 0 }
      (beforePass env params s cands i).2 := if_pos ⟨hi, hpass⟩
  rw [hrun] at h ⊢
  exact run_nScheduled_of_room h

/-- A commit in the pass of an entry shows that the pass serves, and a successful one counts towards
what can be reached up to the end of the pass. -/
theorem le_reach_of_attempt (hnone : Unscheduled cands) {v : PassState × DlCandidate}
    (hv : v ∈ (passOf env params s cands i).visits) {a : Attempt}
    (ha : (passVisit env params s i v.1 v.2).state.attempts = v.1.attempts ++ [a]) :
    PassServes params s.mac (cands.map DlCandidate.placement) i ∧
      (env.AdmitsFrom (s.mac.dlSlicePolicy.entry i).nssai
        (beforePass env params s cands i).1.slot.validations → a.outcome ≠ none) ∧
      (a.outcome ≠ none → v.1.slot.nScheduled + 1 ≤
        reach params s.mac (cands.map DlCandidate.placement) (i + 1) none) := by
  have hpass : i < s.mac.entries ∧ s.mac.HasPass params i := by
    by_contra hnot
    unfold passOf at hv
    rw [if_neg hnot] at hv
    exact absurd hv List.not_mem_nil
  have htable := beforePass_sameTable env params s cands i
  have hrun : passOf env params s cands i = run (passVisit env params s i)
      { (beforePass env params s cands i).1 with used := 0 }
      (beforePass env params s cands i).2 := if_pos hpass
  rw [hrun] at hv
  obtain ⟨⟨hsame, hlater⟩, hmem⟩ := mem_of_mem_visits
    (I := fun t : PassState => SameTable s.mac t.slot.mac ∧
      (beforePass env params s cands i).1.slot.validations ≤ t.slot.validations)
    (fun t c ht => ⟨ht.1.trans (newtxVisit_round env params (some i) _ t c).sameTable,
      ht.2.trans (newtxVisit_step env params _ _ t c).validations_le⟩)
    (s := { (beforePass env params s cands i).1 with used := 0 }) ⟨htable, le_rfl⟩ hv
  obtain ⟨hserves, hbudget, ⟨rbStart, rbSize, hval⟩, hcount⟩ := newtxVisit_of_attempt ha
  rw [hsame.newtxServes_eq] at hserves
  obtain ⟨hun, hnew, hnssai⟩ := (newtxServes_iff (some i)).mp hserves
  dsimp only at hnssai
  have hstands := sliceStart_stands env params (s := s.enterCall) (stands_buildPfOrder env cands) i
  refine ⟨⟨hpass.1, ?_, waiting_pos hstands hmem ?_⟩, fun hadmits => ?_, fun hok => ?_⟩
  · rw [grantsOf, if_pos hpass.2]
    exact Nat.div_pos ((hbudget hpass.2.2).trans (Nat.sub_le _ _)) (by decide)
  · simp [Placement.ofSlice, DlCandidate.placement, hnew, hnssai]
  · rw [hval]
    exact hadmits _ _ hlater hnew hnssai
  · have hstep : (passVisit env params s i v.1 v.2).state.slot.nScheduled ≤
        (passOf env params s cands i).state.slot.nScheduled := by
      rw [hrun]
      exact rel_of_mem_visits (R := fun t u => t.slot.nScheduled ≤ u.slot.nScheduled)
        (fun _ => le_rfl) (fun _ _ _ => le_trans) (fun t c => by
          rcases newtxVisit_stopsAtLimit env params (some i) _ t c with h | ⟨h, -⟩
          · exact h.ge
          · exact (Nat.le_succ _).trans h.ge) hv
    have hcands : Unscheduled (buildPfOrder env cands) :=
      fun c hc => hnone c ((mem_buildPfOrder env).mp hc).1
    have hreach := sliceStart_nScheduled_le_reach env params (s := s.enterCall) rfl hcands
      (stands_buildPfOrder env cands) (i + 1) none fun n hn => absurd hn (by simp)
    rw [passOf_state_eq hpass.1 hpass.2] at hstep
    exact (hcount hok).1.ge.trans (hstep.trans hreach)

end Pass

/-! ### Calls that go wrong -/

section Wrong

variable {nrComputeTbs : DlCandidate → ℕ → BitVec 32} {params : DlSchedParams}
  {cands : List DlCandidate} (halone : Alone cands) {s : SlotState}
  (hclear : ∀ c ∈ cands, c.Clear s.vrbMap) {i : ℕ}
  (hserves : PassServes params s.mac (cands.map DlCandidate.placement) i)

/-- When the passes before an entry have grants for all of its slice, one candidate that is held
back is all that is missing from what can be reached. -/
theorem reach_succ_le {mac : SliceState} {places : List Placement}
    (hwaiting : 0 < waiting (Placement.ofSlice (mac.dlSlicePolicy.entry i).nssai) places)
    (hle : waiting (Placement.ofSlice (mac.dlSlicePolicy.entry i).nssai) places ≤
      grantsBefore params mac i (mac.dlSlicePolicy.entry i).nssai) :
    reach params mac places (i + 1) none ≤
      reach params mac places i (some (mac.dlSlicePolicy.entry i).nssai) + 1 := by
  generalize hn : (mac.dlSlicePolicy.entry i).nssai = n at hwaiting hle ⊢
  have hmem : n ∈ slicesBefore mac i := by
    by_contra hnot
    have hzero : grantsBefore params mac i n = 0 := by
      refine Finset.sum_eq_zero fun k hk => if_neg fun hk_n => hnot ?_
      exact Finset.mem_image.mpr ⟨k, hk, hk_n⟩
    omega
  have hslices : slicesBefore mac (i + 1) = slicesBefore mac i := by
    unfold slicesBefore at hmem ⊢
    rw [Finset.range_add_one, Finset.image_insert, hn, Finset.insert_eq_of_mem hmem]
  have hone : ∑ m ∈ slicesBefore mac i, (if n = m then 1 else 0) = 1 := by
    rw [Finset.sum_ite_eq, if_pos hmem]
  have hsum : ∑ m ∈ slicesBefore mac i,
      min (waiting (Placement.ofSlice m) places - if (none : Option Nssai) = some m then 1 else 0)
        (grantsBefore params mac (i + 1) m) ≤
      ∑ m ∈ slicesBefore mac i,
        (min (waiting (Placement.ofSlice m) places - if some n = some m then 1 else 0)
          (grantsBefore params mac i m) + if n = m then 1 else 0) := by
    refine Finset.sum_le_sum fun m _ => ?_
    rw [grantsBefore_succ, hn]
    simp only [Option.some.injEq, reduceCtorEq, if_false]
    by_cases hm : n = m
    · subst hm
      simp only [if_true]
      omega
    · simp only [if_neg hm]
      omega
  rw [Finset.sum_add_distrib, hone] at hsum
  unfold reach
  rw [hslices]
  omega

include halone hclear hserves

variable (nrComputeTbs) in
/-- When the limit can be reached up to the end of an entry's pass, some call reaches it in the
pass, although no validation fails from there on. -/
theorem exists_filledPass (hreach : params.maxNumUe ≤
      reach params s.mac (cands.map DlCandidate.placement) (i + 1) none) :
    ∃ env : SlotEnv, OfCell nrComputeTbs env ∧
      (∀ k a, (beforePass env params s cands i).1.slot.validations ≤ k →
        (env.nrDlValidateCcePucch k a).isSome = true) ∧
      (beforePass env params s cands i).1.slot.nScheduled <
        (passOf env params s cands i).state.slot.nScheduled ∧
      params.maxNumUe ≤ (passOf env params s cands i).state.slot.nScheduled := by
  obtain ⟨hentry, hgrants, hwaiting⟩ := hserves
  have hpass := hasPass_of_grantsOf_pos hgrants
  by_cases hlate : waiting (Placement.ofSlice (s.mac.dlSlicePolicy.entry i).nssai)
      (cands.map DlCandidate.placement) ≤
        grantsBefore params s.mac i (s.mac.dlSlicePolicy.entry i).nssai
  · -- a candidate is held back until its pass begins
    have hbefore : reach params s.mac (cands.map DlCandidate.placement) (i + 1) none ≤
        reach params s.mac (cands.map DlCandidate.placement) i
          (some (s.mac.dlSlicePolicy.entry i).nssai) + 1 := reach_succ_le hwaiting hlate
    obtain ⟨c, hc, hskip, hof⟩ := exists_waiting hwaiting
    obtain ⟨hnew, hnssai⟩ := Bool.and_eq_true_iff.mp hof
    have hnssai : c.nssai = (s.mac.dlSlicePolicy.entry i).nssai := of_decide_eq_true hnssai
    obtain ⟨env, x, hcell, start, hstart, hrelaxed, hfull, hok, a, ha, hid, hun⟩ :=
      exists_fullStart nrComputeTbs halone rfl hclear hc hskip hnew
        (Nat.sub_le params.maxNumUe 1) (p := i) (by rw [hnssai]; omega)
    rw [← beforePass_eq_sliceStart] at hstart
    subst hstart
    have htable := beforePass_sameTable env params s cands i
    have ha_serves : newtxServes s.mac (some i) a = true := by
      have ha_nssai : a.identity.nssai = c.identity.nssai := by rw [hid]
      exact (newtxServes_iff (some i)).mpr
        ⟨hun, (lasting_newData c a hid).trans hnew, ha_nssai.trans hnssai⟩
    have hgrow := policyRun_overruns htable hgrants hrelaxed (fun a => hok _ a le_rfl)
      ⟨a, ha, ha_serves⟩
    rw [← passOf_eq_policyRun hentry hpass] at hgrow
    exact ⟨env, hcell, hok, hgrow, by omega⟩
  · -- the passes before leave a candidate
    obtain ⟨env, x, hcell, hok, hrelaxed, hfull⟩ :=
      exists_openStart nrComputeTbs params halone rfl hclear (i + 1)
    have htable := beforePass_sameTable env params s cands i
    have hcands : Unscheduled (buildPfOrder env cands) :=
      fun c hc => halone.unscheduled c ((mem_buildPfOrder env).mp hc).1
    have hle := sliceStart_scheduledOf_le env params s.enterCall hcands i
      (s.mac.dlSlicePolicy.entry i).nssai
    have hcount := sliceStart_stands env params (s := s.enterCall) (stands_buildPfOrder env cands)
      i (Placement.ofSlice (s.mac.dlSlicePolicy.entry i).nssai)
    have hleft : ∃ c ∈ (beforePass env params s cands i).2,
        newtxServes s.mac (some i) c = true := by
      by_contra hnot
      refine hlate (hcount.ge.trans (le_trans ?_ hle))
      refine List.countP_mono_left fun c hc hof => ?_
      obtain ⟨hnew, hnssai⟩ := Bool.and_eq_true_iff.mp hof
      by_contra hun
      refine hnot ⟨c, hc, (newtxServes_iff (some i)).mpr ⟨?_, hnew, of_decide_eq_true hnssai⟩⟩
      by_contra hsched
      rw [Bool.not_eq_false] at hsched
      refine hun ?_
      rw [hsched]
      exact hof
    have hgrow := policyRun_overruns htable hgrants (hrelaxed i) (fun a => hok _ a) hleft
    rw [← passOf_eq_policyRun hentry hpass] at hgrow
    rw [← beforePass_eq_sliceStart, ← passOf_state_eq hentry hpass, min_eq_left hreach] at hfull
    exact ⟨env, hcell, fun k a _ => hok k a, hgrow, hfull⟩

end Wrong

/-! ### Refused candidates -/

/-- An environment in which every validation fails. -/
def refusingEnv (nrComputeTbs : DlCandidate → ℕ → BitVec 32) (x : ℕ) : SlotEnv :=
  { lateEnv nrComputeTbs x fun _ => true with nrDlValidateCcePucch := fun _ _ => none }

section Refused

variable {env : SlotEnv} {params : DlSchedParams}

theorem VisitStep.unscheduled_refused (hno : ∀ k c, env.nrDlValidateCcePucch k c = none)
    {pre post : List DlCandidate} {s : PassState} {c : DlCandidate}
    {v : Visit PassState DlCandidate} (hstep : VisitStep env params s c v)
    (h : Unscheduled (pre ++ c :: post)) : Unscheduled (pre ++ v.item :: post) := by
  have hitem : v.item.scheduled = false := by
    cases hstep with
    | pass _ hitem =>
      rw [hitem]
      exact h c (by simp)
    | commit rbStart rbSize hun _ hitem =>
      rw [hitem]
      simp only [commitVisit, commitAllocOrStop_of_none (hno _ _)]
      exact hun
  intro a ha
  rcases List.mem_append.mp ha with ha | ha
  · exact h a (List.mem_append_left _ ha)
  · rcases List.mem_cons.mp ha with rfl | ha
    · exact hitem
    · exact h a (by simp [ha])

/-- A pass that serves a candidate makes a commit, which fails when all validations do. -/
theorem exists_commitFails (hno : ∀ k c, env.nrDlValidateCcePucch k c = none) {policy : Option ℕ}
    {rbBudget x : ℕ} {s : PassState} {order : List DlCandidate} (h : Relaxed x s order)
    (hbudget : 0 < rbBudget → minRbSize ≤ rbBudget - s.used)
    (hserved : ∃ c ∈ order, newtxServes s.slot.mac policy c = true) :
    ∃ v ∈ (run (newtxVisit env params policy rbBudget) s order).visits,
      CommitFails (newtxVisit env params policy rbBudget) v := by
  induction order with
  | nil =>
    obtain ⟨c, hc, -⟩ := hserved
    exact absurd hc List.not_mem_nil
  | cons c order ih =>
    by_cases hserves : newtxServes s.slot.mac policy c = true
    · have hun : c.scheduled = false := ((newtxServes_iff policy).mp hserves).1
      have hvisit : newtxVisit env params policy rbBudget s c = _ :=
        newtxVisit_of_clear (h.clear c List.mem_cons_self hun)
          (h.layout.size c List.mem_cons_self).1 hserves hbudget
      refine ⟨(s, c), ?_, s.attempt env c 0 minRbSize, ?_, hno _ _⟩
      · cases hstop : (newtxVisit env params policy rbBudget s c).stop with
        | true => simp [run_cons_of_stop hstop]
        | false => simp [run_cons_of_not_stop hstop]
      · rw [hvisit]
        split_ifs
        · rfl
        · rfl
    · have hvisit : newtxVisit env params policy rbBudget s c = .pass s c := by
        simp [newtxVisit, hserves]
      obtain ⟨a, ha, ha_serves⟩ := hserved
      have hrest : a ∈ order := by
        rcases List.mem_cons.mp ha with rfl | ha
        · exact absurd ha_serves hserves
        · exact ha
      obtain ⟨v, hv, hfails⟩ := ih h.tail ⟨a, hrest, ha_serves⟩
      rw [run_cons_pass hvisit]
      exact ⟨v, List.mem_cons_of_mem _ hv, hfails⟩

/-- When the pass of an entry serves, some call makes a commit in it that fails. -/
theorem exists_refusedPass (nrComputeTbs : DlCandidate → ℕ → BitVec 32) {cands : List DlCandidate}
    (halone : Alone cands) {s : SlotState} (hclear : ∀ c ∈ cands, c.Clear s.vrbMap) {i : ℕ}
    (hserves : PassServes params s.mac (cands.map DlCandidate.placement) i) :
    ∃ env : SlotEnv, env.nrComputeTbs = nrComputeTbs ∧
      ∃ v ∈ (passOf env params s cands i).visits, CommitFails (passVisit env params s i) v := by
  obtain ⟨hentry, hgrants, hwaiting⟩ := hserves
  have hpass := hasPass_of_grantsOf_pos hgrants
  obtain ⟨x, hx⟩ := Infinite.exists_notMem_finset (cands.map DlCandidate.rnti).toFinset
  have hlate : ∀ a ∈ cands, a.rnti = x → a.newData = true := by
    rintro a ha rfl
    exact absurd (List.mem_toFinset.mpr (List.mem_map_of_mem ha)) hx
  let env := refusingEnv nrComputeTbs x
  have hno : ∀ k c, env.nrDlValidateCcePucch k c = none := fun _ _ => rfl
  have hpdcch : env.NoPdcch := fun k c pdcch h => absurd h (by simp [hno])
  have hlayout : Relaxed x s.enterCall
      (buildPfOrder (lateEnv nrComputeTbs x fun _ => true) cands) := halone.relaxed hclear hlate
  have hrelaxed : Relaxed x s.enterCall (buildPfOrder env cands) := hlayout
  have hstart : Relaxed x (beforePass env params s cands i).1
      (beforePass env params s cands i).2 := sliceStart_relaxed hpdcch hrelaxed i
  have htable := beforePass_sameTable env params s cands i
  have hnone : Unscheduled (beforePass env params s cands i).2 :=
    slicesRun_invariant (I := fun _ => Unscheduled)
      (fun _ _ _ _ _ hstep => hstep.unscheduled_refused hno) (fun _ _ h => h) i
      (earlyRun_invariant (I := fun _ => Unscheduled)
        (fun _ _ _ _ _ hstep => hstep.unscheduled_refused hno)
        fun c hc => halone.unscheduled c ((mem_buildPfOrder env).mp hc).1)
  have hcount := sliceStart_stands env params (s := s.enterCall) (stands_buildPfOrder env cands) i
    (Placement.ofSlice (s.mac.dlSlicePolicy.entry i).nssai)
  obtain ⟨c, hc, hof⟩ := List.countP_pos_iff.mp (hwaiting.trans_eq hcount.symm)
  obtain ⟨hnew, hnssai⟩ := Bool.and_eq_true_iff.mp hof
  refine ⟨env, rfl, ?_⟩
  have hrun : passOf env params s cands i = run (passVisit env params s i)
      { (beforePass env params s cands i).1 with used := 0 }
      (beforePass env params s cands i).2 := if_pos ⟨hentry, hpass⟩
  rw [hrun]
  refine exists_commitFails hno (s := { (beforePass env params s cands i).1 with used := 0 })
    ⟨hstart.layout, hstart.clear⟩ (fun _ => minRbSize_le_of_grantsOf_pos hgrants) ⟨c, hc, ?_⟩
  rw [htable.newtxServes_eq]
  exact (newtxServes_iff (some i)).mpr ⟨hnone c hc, hnew, of_decide_eq_true hnssai⟩

end Refused

/-- The accounts of an entry are exact in every call with candidates at the placements, for every
VRB map, every outcome of the validations and every order the sorts can leave. With `admitted`,
only those outcomes count that fail no new data of the slice from the start of its pass on. -/
def AlwaysAccounted (admitted : Bool) (nrComputeTbs : DlCandidate → ℕ → BitVec 32)
    (params : DlSchedParams) (mac : SliceState) (places : List Placement)
    (i : Fin maxNumSlices) : Prop :=
  ∀ (env : SlotEnv) (s : SlotState) (cands : List DlCandidate), env.nrComputeTbs = nrComputeTbs →
    s.mac = mac → cands.map DlCandidate.placement = places → Unscheduled cands →
    (admitted = true → env.AdmitsFrom (mac.dlSlicePolicy.entry i).nssai
      (beforePass env params s cands i).1.slot.validations) →
    PrbAccounted env params s cands i

/-- The accounts of an entry are exact in every call exactly when its pass has nothing to serve, or
no validation of its slice can fail and the limit cannot be reached up to the end of the pass. -/
theorem prbAccounted_iff (admitted : Bool) (nrComputeTbs : DlCandidate → ℕ → BitVec 32)
    (params : DlSchedParams) (mac : SliceState) (places : List Placement)
    (i : Fin maxNumSlices) :
    AlwaysAccounted admitted nrComputeTbs params mac places i ↔
      (PassServes params mac places i →
        admitted = true ∧ reach params mac places (i + 1) none < params.maxNumUe) := by
  have hplaces : (aloneUes places).map DlCandidate.placement = places := map_placement_aloneUes
  have hclear : ∀ c ∈ aloneUes places, c.Clear mac.emptySlot.vrbMap :=
    fun c _ => clear_emptySlot mac c
  constructor
  · intro h hserves
    rw [← hplaces] at hserves
    have hadmitted : admitted = true := by
      by_contra hfree
      obtain ⟨env, htbs, v, hv, hfails⟩ := exists_refusedPass nrComputeTbs alone_aloneUes hclear
        (s := mac.emptySlot) hserves
      have hacc := h env mac.emptySlot (aloneUes places) htbs rfl hplaces
        alone_aloneUes.unscheduled fun hyes => absurd hyes hfree
      exact (hfails.used_lt env params).ne' (hacc.failed v hv hfails).1
    refine ⟨hadmitted, Nat.lt_of_not_le fun hreach => ?_⟩
    rw [← hplaces] at hreach
    obtain ⟨env, hcell, hok, hgrow, hfull⟩ := exists_filledPass nrComputeTbs alone_aloneUes hclear
      (s := mac.emptySlot) hserves hreach
    have hacc := h env mac.emptySlot (aloneUes places) hcell.nrComputeTbs_eq rfl hplaces
      alone_aloneUes.unscheduled fun _ k c hk _ _ => Option.isSome_iff_ne_none.mp (hok k c hk)
    have hcommits := (prbAccounted_iff_commitsClear env params mac.emptySlot _ i).mp hacc
    rcases passOf_nScheduled_of_room hserves.entry (hasPass_of_grantsOf_pos hserves.grants)
      fun v hv a ha _ => (hcommits v hv a ha).2 with hsame | hbelow
    · exact hgrow.ne' hsame
    · exact hbelow.not_ge hfull
  · rintro h env s cands - rfl rfl hnone hadmits
    refine (prbAccounted_iff_commitsClear env params s cands i).mpr fun v hv a ha => ?_
    obtain ⟨hserves, hok, hreach⟩ := le_reach_of_attempt hnone hv ha
    obtain ⟨hadmitted, hroom⟩ := h hserves
    have hsome := hok (hadmits hadmitted)
    exact ⟨hsome, (hreach hsome).trans_lt hroom⟩

end LlmHric.Mac
