import LlmHric.Mac.PolicyRounds

/-! The pass of a slice policy keeps two accounts of the resource blocks it hands out: the budget it
has used and the statistics of its table entry. Both are written behind the `COMMIT_ALLOC` block, so
they are meant to see exactly the candidates that the block scheduled. The `continue` of the block
only leaves the block, so a failed commit is charged too; and its `return` leaves the pass before
the charge, so the candidate that fills the slot is not charged. -/

namespace LlmHric.Mac

open Sweep

/-- The statistics of a table entry. -/
def PassState.prbUsed (s : PassState) (i : Fin maxNumSlices) : ℕ :=
  s.slot.mac.dlSlicePolicyPrbUsed i

/-- What a pass gives to a candidate that it schedules. -/
def newlyScheduled (c c' : DlCandidate) : ℕ :=
  if c.scheduled = false ∧ c'.scheduled = true then c'.schedPdsch.rbSize else 0

/-- The resource blocks of the candidates that a pass schedules. -/
def passLoad (before after : List DlCandidate) : ℕ :=
  (List.zipWith newlyScheduled before after).sum

theorem newlyScheduled_self (c : DlCandidate) : newlyScheduled c c = 0 := by
  simp [newlyScheduled]

theorem passLoad_self (order : List DlCandidate) : passLoad order order = 0 := by
  induction order with
  | nil => rfl
  | cons c order ih =>
    unfold passLoad at ih ⊢
    rw [List.zipWith_cons_cons, List.sum_cons, ih, newlyScheduled_self]

@[simp] theorem passLoad_cons (c c' : DlCandidate) (order order' : List DlCandidate) :
    passLoad (c :: order) (c' :: order') = newlyScheduled c c' + passLoad order order' := by
  simp [passLoad]

/-! ### What a round does to the accounts -/

/-- A round of `alloc_newtx_pf`: it makes no commit, or its commit fails, fills the slot, or
succeeds with room left. -/
inductive NewtxRound (params : DlSchedParams) (policy : Option ℕ) (s : PassState) (c : DlCandidate)
    (v : Visit PassState DlCandidate) : Prop
  | idle : v.state = s → v.item = c → NewtxRound params policy s c v
  | failed (a : Attempt) (rbSize : ℕ) :
      minRbSize ≤ rbSize → v.state.attempts = s.attempts ++ [a] → a.outcome = none →
      v.stop = false → newlyScheduled c v.item = 0 → v.state.used = s.used + rbSize →
      v.state.slot.mac = addSlicePolicyPrbStats params s.slot.mac policy rbSize →
      NewtxRound params policy s c v
  | full (a : Attempt) (rbSize : ℕ) :
      minRbSize ≤ rbSize → v.state.attempts = s.attempts ++ [a] → a.outcome ≠ none →
      params.maxNumUe ≤ s.slot.nScheduled + 1 → v.stop = true →
      newlyScheduled c v.item = rbSize → v.state.used = s.used → v.state.slot.mac = s.slot.mac →
      NewtxRound params policy s c v
  | taken (a : Attempt) (rbSize : ℕ) :
      v.state.attempts = s.attempts ++ [a] → a.outcome ≠ none →
      s.slot.nScheduled + 1 < params.maxNumUe → v.stop = false →
      newlyScheduled c v.item = rbSize → v.state.used = s.used + rbSize →
      v.state.slot.mac = addSlicePolicyPrbStats params s.slot.mac policy rbSize →
      NewtxRound params policy s c v

section Rounds

variable (env : SlotEnv) (params : DlSchedParams)

theorem newtxVisit_round (policy : Option ℕ) (rbBudget : ℕ) (s : PassState) (c : DlCandidate) :
    NewtxRound params policy s c (newtxVisit env params policy rbBudget s c) := by
  rcases newtxVisit_cases env params policy rbBudget s c with
    heq | ⟨-, -, heq⟩ | ⟨hserves, rbStart, rbSize, -, hmin, -, heq⟩
  · rw [heq]
    exact .idle rfl rfl
  · rw [heq]
    exact .idle rfl rfl
  · have hun : c.scheduled = false := ((newtxServes_iff policy).mp hserves).1
    rw [heq]
    clear heq
    cases hval : env.nrDlValidateCcePucch s.slot.validations
        (c.allocate rbStart rbSize c.schedPdsch.mcs) with
    | none =>
      have hcommit : commitAllocOrStop env params s.slot c rbStart rbSize c.schedPdsch.mcs = _ :=
        commitAllocOrStop_of_none hval
      have hstop : ¬ (commitVisit env params s c rbStart rbSize).stop = true := by
        simp [commitVisit, hcommit]
      rw [if_neg hstop]
      refine .failed (s.attempt env c rbStart rbSize) rbSize hmin rfl hval
        (Bool.not_eq_true _ ▸ hstop) ?_ rfl ?_
      · simp [newlyScheduled, commitVisit, hcommit, DlCandidate.allocate, hun]
      · simp [commitVisit, hcommit, PassState.charge]
    | some pdcch =>
      have hcommit : commitAllocOrStop env params s.slot c rbStart rbSize c.schedPdsch.mcs = _ :=
        commitAllocOrStop_of_some hval
      have houtcome : (s.attempt env c rbStart rbSize).outcome ≠ none := by
        simp [PassState.attempt, hval]
      have hsched : newlyScheduled c (commitVisit env params s c rbStart rbSize).item = rbSize := by
        simp [newlyScheduled, commitVisit, hcommit, DlCandidate.allocate, hun]
      by_cases hlimit : params.maxNumUe ≤ s.slot.nScheduled + 1
      · have hstop : (commitVisit env params s c rbStart rbSize).stop = true := by
          simp [commitVisit, hcommit, hlimit]
        rw [if_pos hstop]
        refine .full (s.attempt env c rbStart rbSize) rbSize hmin rfl houtcome hlimit hstop hsched
          rfl ?_
        simp [commitVisit]
      · have hstop : ¬ (commitVisit env params s c rbStart rbSize).stop = true := by
          simp [commitVisit, hcommit, hlimit]
        rw [if_neg hstop]
        refine .taken (s.attempt env c rbStart rbSize) rbSize rfl houtcome (Nat.lt_of_not_le hlimit)
          (Bool.not_eq_true _ ▸ hstop) hsched rfl ?_
        simp [commitVisit, PassState.charge]

theorem NewtxRound.sameTable {policy : Option ℕ} {s : PassState} {c : DlCandidate}
    {v : Visit PassState DlCandidate} (h : NewtxRound params policy s c v) :
    SameTable s.slot.mac v.state.slot.mac := by
  cases h with
  | idle hstate _ => rw [hstate]; exact .refl _
  | failed a rbSize _ _ _ _ _ _ hmac =>
    rw [hmac]
    exact sameTable_addSlicePolicyPrbStats params s.slot.mac policy rbSize
  | full a rbSize _ _ _ _ _ _ _ hmac => rw [hmac]; exact .refl _
  | taken a rbSize _ _ _ _ _ _ hmac =>
    rw [hmac]
    exact sameTable_addSlicePolicyPrbStats params s.slot.mac policy rbSize

theorem prbUsed_addSlicePolicyPrbStats (mac : SliceState) (i : Fin maxNumSlices) (policy : Option ℕ)
    (rbSize : ℕ) :
    (addSlicePolicyPrbStats params mac policy rbSize).dlSlicePolicyPrbUsed i =
      mac.dlSlicePolicyPrbUsed i +
        if policy = some i.val ∧ i.val < mac.dlSlicePolicyCount then rbSize else 0 := by
  cases policy with
  | none => simp [addSlicePolicyPrbStats]
  | some k =>
    have hentry : (some k = some i.val ↔ i.val = k) := by
      rw [Option.some_inj]
      exact eq_comm
    simp only [addSlicePolicyPrbStats, hentry]
    by_cases hk : i.val = k
    · subst hk
      split_ifs with hcount _ hboth hboth
      all_goals simp_all
    · split_ifs
      all_goals simp_all

/-- A round of another pass leaves the statistics of an entry alone. -/
theorem NewtxRound.prbUsed_eq {policy : Option ℕ} {i : Fin maxNumSlices} {s : PassState}
    {c : DlCandidate} {v : Visit PassState DlCandidate} (h : NewtxRound params policy s c v)
    (hne : policy ≠ some i.val) : v.state.prbUsed i = s.prbUsed i := by
  unfold PassState.prbUsed
  cases h with
  | idle hstate _ => rw [hstate]
  | failed a rbSize _ _ _ _ _ _ hmac =>
    rw [hmac, prbUsed_addSlicePolicyPrbStats, if_neg fun h => hne h.1, Nat.add_zero]
  | full a rbSize _ _ _ _ _ _ _ hmac => rw [hmac]
  | taken a rbSize _ _ _ _ _ _ hmac =>
    rw [hmac, prbUsed_addSlicePolicyPrbStats, if_neg fun h => hne h.1, Nat.add_zero]

/-- A round of the entry's own pass writes one amount to both accounts. -/
theorem NewtxRound.prbUsed_add_used {i : Fin maxNumSlices} {s : PassState} {c : DlCandidate}
    {v : Visit PassState DlCandidate} (h : NewtxRound params (some i.val) s c v)
    (hi : i.val < s.slot.mac.dlSlicePolicyCount) :
    v.state.prbUsed i + s.used = s.prbUsed i + v.state.used := by
  unfold PassState.prbUsed
  cases h with
  | idle hstate _ => rw [hstate]
  | failed a rbSize _ _ _ _ _ hused hmac =>
    rw [hmac, hused, prbUsed_addSlicePolicyPrbStats, if_pos ⟨rfl, hi⟩]
    omega
  | full a rbSize _ _ _ _ _ _ hused hmac => rw [hmac, hused]
  | taken a rbSize _ _ _ _ _ hused hmac =>
    rw [hmac, hused, prbUsed_addSlicePolicyPrbStats, if_pos ⟨rfl, hi⟩]
    omega

/-! ### One pass -/

/-- The round makes a commit that fails its validation. -/
def CommitFails (visit : PassState → DlCandidate → Visit PassState DlCandidate)
    (v : PassState × DlCandidate) : Prop :=
  ∃ a, (visit v.1 v.2).state.attempts = v.1.attempts ++ [a] ∧ a.outcome = none

/-- If the round makes a commit, its validation succeeds and the slot stays below its limit. -/
def CommitClear (visit : PassState → DlCandidate → Visit PassState DlCandidate)
    (v : PassState × DlCandidate) : Prop :=
  ∀ a, (visit v.1 v.2).state.attempts = v.1.attempts ++ [a] →
    a.outcome ≠ none ∧ v.1.slot.nScheduled + 1 < params.maxNumUe

variable {policy : Option ℕ} {rbBudget : ℕ} {s : PassState} {order : List DlCandidate}

theorem append_singleton_inj {α : Type*} {l : List α} {a b : α} (h : l ++ [a] = l ++ [b]) :
    a = b :=
  List.singleton_inj.mp (List.append_cancel_left h)

/-- A pass whose commits are all clear uses the budget that its candidates get. -/
theorem run_used_eq
    (h : ∀ v ∈ (run (newtxVisit env params policy rbBudget) s order).visits,
      CommitClear params (newtxVisit env params policy rbBudget) v) :
    (run (newtxVisit env params policy rbBudget) s order).state.used =
      s.used + passLoad order (run (newtxVisit env params policy rbBudget) s order).items := by
  induction order generalizing s with
  | nil => rfl
  | cons c order ih =>
    have hround := newtxVisit_round env params policy rbBudget s c
    cases hstop : (newtxVisit env params policy rbBudget s c).stop with
    | true =>
      rw [run_cons_of_stop hstop] at h ⊢
      have hclear := h _ List.mem_cons_self
      cases hround with
      | idle hstate hitem => simp [hstate, hitem, passLoad_self]
      | failed a rbSize _ _ _ hgo => exact absurd (hstop.symm.trans hgo) (by simp)
      | full a rbSize _ hatt _ hlimit => exact absurd (hclear a hatt).2 hlimit.not_gt
      | taken a rbSize _ _ _ hgo => exact absurd (hstop.symm.trans hgo) (by simp)
    | false =>
      rw [run_cons_of_not_stop hstop] at h ⊢
      have hclear := h _ List.mem_cons_self
      have hrest := ih fun v hv => h v (List.mem_cons_of_mem _ hv)
      dsimp only
      rw [hrest, passLoad_cons]
      cases hround with
      | idle hstate hitem => rw [hstate, hitem, newlyScheduled_self, Nat.zero_add]
      | failed a rbSize _ hatt hnone => exact absurd hnone (hclear a hatt).1
      | full a rbSize _ hatt _ hlimit => exact absurd (hclear a hatt).2 hlimit.not_gt
      | taken a rbSize hatt _ _ _ hload hused =>
        rw [hused, hload]
        omega

/-- A pass without failed commits that is left at the limit of the slot uses less budget than its
candidates get. -/
theorem run_used_lt
    (hok : ∀ v ∈ (run (newtxVisit env params policy rbBudget) s order).visits,
      ¬ CommitFails (newtxVisit env params policy rbBudget) v)
    (hlimit : ∃ v ∈ (run (newtxVisit env params policy rbBudget) s order).visits,
      ¬ CommitClear params (newtxVisit env params policy rbBudget) v) :
    (run (newtxVisit env params policy rbBudget) s order).state.used <
      s.used + passLoad order (run (newtxVisit env params policy rbBudget) s order).items := by
  induction order generalizing s with
  | nil =>
    obtain ⟨v, hv, -⟩ := hlimit
    exact absurd hv List.not_mem_nil
  | cons c order ih =>
    have hround := newtxVisit_round env params policy rbBudget s c
    cases hstop : (newtxVisit env params policy rbBudget s c).stop with
    | true =>
      rw [run_cons_of_stop hstop] at hlimit ⊢
      cases hround with
      | idle hstate hitem =>
        -- a round without a commit is clear
        obtain ⟨v, hv, hnot⟩ := hlimit
        obtain rfl := List.mem_singleton.mp hv
        exact absurd (fun a hatt => by simp [hstate] at hatt) hnot
      | failed a rbSize _ _ _ hgo => exact absurd (hstop.symm.trans hgo) (by simp)
      | full a rbSize hmin _ _ _ _ hload hused =>
        rw [passLoad_cons, hload, hused, passLoad_self]
        unfold minRbSize at hmin
        omega
      | taken a rbSize _ _ _ hgo => exact absurd (hstop.symm.trans hgo) (by simp)
    | false =>
      rw [run_cons_of_not_stop hstop] at hok hlimit ⊢
      have hhead := hok _ List.mem_cons_self
      obtain ⟨v, hv, hnot⟩ := hlimit
      -- the round at the limit is a later one: this one does not end the pass
      have hrest : v ≠ (s, c) → _ := fun hne =>
        ih (fun w hw => hok w (List.mem_cons_of_mem _ hw))
          ⟨v, (List.mem_cons.mp hv).resolve_left hne, hnot⟩
      dsimp only
      rw [passLoad_cons]
      cases hround with
      | idle hstate hitem =>
        have hlt := hrest (by rintro rfl; exact hnot fun a hatt => by simp [hstate] at hatt)
        rw [hstate] at hlt
        rw [hstate, hitem, newlyScheduled_self, Nat.zero_add]
        exact hlt
      | failed a rbSize _ hatt hnone => exact absurd ⟨a, hatt, hnone⟩ hhead
      | full a rbSize _ _ _ _ hend => exact absurd (hstop.symm.trans hend) (by simp)
      | taken a rbSize hatt hsome hroom _ hload hused =>
        have hlt := hrest (by
          rintro rfl
          refine hnot fun b hb => ?_
          rw [append_singleton_inj (hb.symm.trans hatt)]
          exact ⟨hsome, hroom⟩)
        rw [hused] at hlt
        rw [hload]
        omega

theorem CommitFails.used_lt {v : PassState × DlCandidate}
    (h : CommitFails (newtxVisit env params policy rbBudget) v) :
    v.1.used < (newtxVisit env params policy rbBudget v.1 v.2).state.used := by
  obtain ⟨a, hatt, hnone⟩ := h
  have hsame : ∀ b : Attempt, (newtxVisit env params policy rbBudget v.1 v.2).state.attempts =
      v.1.attempts ++ [b] → b.outcome = none := by
    intro b hb
    rw [← append_singleton_inj (hatt.symm.trans hb)]
    exact hnone
  cases newtxVisit_round env params policy rbBudget v.1 v.2 with
  | idle hstate _ => simp [hstate] at hatt
  | failed b rbSize hmin _ _ _ _ hused =>
    rw [hused]
    unfold minRbSize at hmin
    omega
  | full b rbSize _ hb hsome => exact absurd (hsame b hb) hsome
  | taken b rbSize hb hsome => exact absurd (hsame b hb) hsome

end Rounds

/-! ### The pass of an entry within a call -/

section Call

variable (env : SlotEnv) (params : DlSchedParams)

theorem exactVisit_mac (wanted : DlCandidate → Bool) (neededRbs : DlCandidate → ℕ) (s : PassState)
    (c : DlCandidate) :
    (exactVisit env params wanted neededRbs s c).state.slot.mac = s.slot.mac := by
  unfold exactVisit
  split_ifs
  · rfl
  · split
    next => rfl
    next => exact commitAllocOrStop_mac

theorem earlyRun_mac (s : PassState) (order : List DlCandidate) :
    (earlyRun env params s order).state.slot.mac = s.slot.mac := by
  have hrun : ∀ (wanted : DlCandidate → Bool) (neededRbs : DlCandidate → ℕ) (t : PassState)
      (l : List DlCandidate), t.slot.mac = s.slot.mac →
      (run (exactVisit env params wanted neededRbs) t l).state.slot.mac = s.slot.mac :=
    fun wanted neededRbs t l ht => run_stateInvariant (I := fun u => u.slot.mac = s.slot.mac)
      (fun u c hu => (exactVisit_mac env params wanted neededRbs u c).trans hu) ht
  simp only [earlyRun]
  split_ifs
  · exact hrun _ _ s order rfl
  · exact hrun _ _ _ _ (hrun _ _ s order rfl)

theorem newtxRun_sameTable (policy : Option ℕ) (rbBudget : ℕ) (s : PassState)
    (order : List DlCandidate) :
    SameTable s.slot.mac (run (newtxVisit env params policy rbBudget) s order).state.slot.mac :=
  run_stateInvariant (I := fun t => SameTable s.slot.mac t.slot.mac)
    (fun t c ht => ht.trans (newtxVisit_round env params policy rbBudget t c).sameTable)
    (.refl s.slot.mac)

theorem newtxRun_prbUsed_eq {policy : Option ℕ} (rbBudget : ℕ) {i : Fin maxNumSlices}
    (hne : policy ≠ some i.val) (s : PassState) (order : List DlCandidate) :
    (run (newtxVisit env params policy rbBudget) s order).state.prbUsed i = s.prbUsed i :=
  run_stateInvariant (I := fun t => t.prbUsed i = s.prbUsed i)
    (fun t c ht =>
      ((newtxVisit_round env params policy rbBudget t c).prbUsed_eq params hne).trans ht) rfl

/-- The two accounts of an entry grow by the same amount in its own pass. -/
theorem newtxRun_prbUsed_add_used (rbBudget : ℕ) {i : Fin maxNumSlices} (s : PassState)
    (hi : i.val < s.slot.mac.dlSlicePolicyCount) (order : List DlCandidate) :
    (run (newtxVisit env params (some i.val) rbBudget) s order).state.prbUsed i + s.used =
      s.prbUsed i + (run (newtxVisit env params (some i.val) rbBudget) s order).state.used := by
  refine (run_stateInvariant (I := fun t : PassState => SameTable s.slot.mac t.slot.mac ∧
    t.prbUsed i + s.used = s.prbUsed i + t.used) (fun t c ht => ?_) ⟨.refl s.slot.mac, rfl⟩).2
  have hround := newtxVisit_round env params (some i.val) rbBudget t c
  have hboth := hround.prbUsed_add_used params (by rw [ht.1.count]; exact hi)
  exact ⟨ht.1.trans hround.sameTable, by have := ht.2; omega⟩

theorem slicesRun_sameTable (n : ℕ) (s : PassState) (order : List DlCandidate) :
    SameTable s.slot.mac (slicesRun env params n s order).1.slot.mac := by
  induction n with
  | zero => exact .refl s.slot.mac
  | succ n ih =>
    simp only [slicesRun]
    split_ifs
    · exact ih.trans (newtxRun_sameTable env params _ _
        { (slicesRun env params n s order).1 with used := 0 } _)
    · exact ih

/-- The passes of other entries leave the statistics of an entry alone. -/
theorem slicesRun_succ_prbUsed {n : ℕ} {i : Fin maxNumSlices} (hne : n ≠ i.val) (s : PassState)
    (order : List DlCandidate) :
    (slicesRun env params (n + 1) s order).1.prbUsed i =
      (slicesRun env params n s order).1.prbUsed i := by
  simp only [slicesRun]
  split_ifs
  · exact newtxRun_prbUsed_eq env params _ (fun h => hne (Option.some_inj.mp h)) _ _
  · rfl

theorem slicesRun_prbUsed_of_le {n : ℕ} {i : Fin maxNumSlices} (hn : n ≤ i.val) (s : PassState)
    (order : List DlCandidate) :
    (slicesRun env params n s order).1.prbUsed i = s.prbUsed i := by
  induction n with
  | zero => rfl
  | succ n ih => rw [slicesRun_succ_prbUsed env params (by omega), ih (by omega)]

theorem slicesRun_prbUsed_of_gt {n : ℕ} {i : Fin maxNumSlices} (hn : i.val < n) (s : PassState)
    (order : List DlCandidate) :
    (slicesRun env params n s order).1.prbUsed i =
      (slicesRun env params (i.val + 1) s order).1.prbUsed i := by
  induction n with
  | zero => omega
  | succ n ih =>
    rcases Nat.lt_succ_iff_lt_or_eq.mp hn with hlt | rfl
    · rw [slicesRun_succ_prbUsed env params (by omega), ih hlt]
    · rfl

def beforePass (s : SlotState) (cands : List DlCandidate) (i : ℕ) :
    PassState × List DlCandidate :=
  let early := earlyRun env params s.enterCall (buildPfOrder env cands)
  slicesRun env params i early.state early.items

/-- The rounds of the pass of an entry. -/
def passVisit (s : SlotState) (i : ℕ) : PassState → DlCandidate → Visit PassState DlCandidate :=
  newtxVisit env params (some i)
    (totalBudget params (s.mac.dlSlicePolicy.entry i).dedicatedPrbRatio)

/-- The pass of an entry within a call; an entry without a pass has an empty one. -/
def passOf (s : SlotState) (cands : List DlCandidate) (i : ℕ) : Result PassState DlCandidate :=
  let before := beforePass env params s cands i
  if i < s.mac.entries ∧ s.mac.HasPass params i then
    run (passVisit env params s i) { before.1 with used := 0 } before.2
  else { state := { before.1 with used := 0 }, items := before.2, stopped := false, visits := [] }

/-- The statistics of an entry grow by the resource blocks of the candidates that its pass
schedules, the pass uses that much of its budget, and a failed commit is charged to neither. -/
structure PrbAccounted (s : SlotState) (cands : List DlCandidate) (i : Fin maxNumSlices) :
    Prop where
  statistics : (nrDlSlicePrbPolicy env params s cands).state.mac.dlSlicePolicyPrbUsed i =
    s.mac.dlSlicePolicyPrbUsed i +
      passLoad (beforePass env params s cands i).2 (passOf env params s cands i).items
  budget : (passOf env params s cands i).state.used =
    passLoad (beforePass env params s cands i).2 (passOf env params s cands i).items
  failed : ∀ v ∈ (passOf env params s cands i).visits, CommitFails (passVisit env params s i) v →
    (passVisit env params s i v.1 v.2).state.used = v.1.used ∧
      (passVisit env params s i v.1 v.2).state.prbUsed i = v.1.prbUsed i

/-- Every commit of the entry's pass succeeds and leaves the slot below its limit. -/
def CommitsClear (s : SlotState) (cands : List DlCandidate) (i : ℕ) : Prop :=
  ∀ v ∈ (passOf env params s cands i).visits, CommitClear params (passVisit env params s i) v

theorem beforePass_sameTable (s : SlotState) (cands : List DlCandidate) (i : ℕ) :
    SameTable s.mac (beforePass env params s cands i).1.slot.mac := by
  have hearly := earlyRun_mac env params s.enterCall (buildPfOrder env cands)
  have hslices := slicesRun_sameTable env params i
    (earlyRun env params s.enterCall (buildPfOrder env cands)).state
    (earlyRun env params s.enterCall (buildPfOrder env cands)).items
  rw [hearly] at hslices
  exact hslices

theorem beforePass_prbUsed (s : SlotState) (cands : List DlCandidate) (i : Fin maxNumSlices) :
    (beforePass env params s cands i).1.prbUsed i = s.mac.dlSlicePolicyPrbUsed i := by
  unfold beforePass
  rw [slicesRun_prbUsed_of_le env params le_rfl]
  unfold PassState.prbUsed
  rw [earlyRun_mac]
  rfl

/-- The statistics of an entry after a call are those its own pass leaves. -/
theorem nrDlSlicePrbPolicy_prbUsed (s : SlotState) (cands : List DlCandidate)
    (i : Fin maxNumSlices) :
    (nrDlSlicePrbPolicy env params s cands).state.mac.dlSlicePolicyPrbUsed i =
      (passOf env params s cands i).state.prbUsed i := by
  have hlast : (nrDlSlicePrbPolicy env params s cands).state.mac.dlSlicePolicyPrbUsed i =
      (beforePass env params s cands s.mac.entries).1.prbUsed i := by
    rw [(nrDlSlicePrbPolicy_eq_callRun env params s cands).1]
    exact newtxRun_prbUsed_eq env params 0 (Option.some_ne_none _).symm _ _
  have htable := beforePass_sameTable env params s cands i
  rw [hlast]
  by_cases hi : i.val < s.mac.entries
  · have hsucc : (beforePass env params s cands s.mac.entries).1.prbUsed i =
        (beforePass env params s cands (i.val + 1)).1.prbUsed i :=
      slicesRun_prbUsed_of_gt env params hi _ _
    rw [hsucc]
    have hunfold : beforePass env params s cands (i.val + 1) =
        if (beforePass env params s cands i).1.slot.mac.HasPass params i then
          ((policyRun env params i (beforePass env params s cands i).1
              (beforePass env params s cands i).2).state,
            (policyRun env params i (beforePass env params s cands i).1
              (beforePass env params s cands i).2).items)
        else beforePass env params s cands i := rfl
    rw [hunfold, passOf]
    dsimp only
    simp only [SliceState.HasPass, policyRun, passVisit, htable.policy, hi, true_and]
    split_ifs
    · rfl
    · rfl
  · rw [passOf, if_neg fun h => hi h.1]
    have hle : s.mac.entries ≤ i.val := Nat.le_of_not_lt hi
    have hstart := beforePass_prbUsed env params s cands i
    unfold beforePass at hstart ⊢
    rw [slicesRun_prbUsed_of_le env params hle]
    rw [slicesRun_prbUsed_of_le env params le_rfl] at hstart
    exact hstart.trans (beforePass_prbUsed env params s cands i).symm

/-- The statistics of an entry grow by the budget that its pass uses. -/
theorem nrDlSlicePrbPolicy_prbUsed_eq_add_used (s : SlotState) (cands : List DlCandidate)
    (i : Fin maxNumSlices) :
    (nrDlSlicePrbPolicy env params s cands).state.mac.dlSlicePolicyPrbUsed i =
      s.mac.dlSlicePolicyPrbUsed i + (passOf env params s cands i).state.used := by
  rw [nrDlSlicePrbPolicy_prbUsed, ← beforePass_prbUsed env params s cands i]
  unfold passOf
  dsimp only
  split_ifs with hpass
  · have hcount : i.val < (beforePass env params s cands i).1.slot.mac.dlSlicePolicyCount := by
      rw [(beforePass_sameTable env params s cands i).count]
      have hentries := hpass.1
      unfold SliceState.entries at hentries
      split_ifs at hentries
      · exact hentries
      · omega
    have hboth := newtxRun_prbUsed_add_used env params
      (totalBudget params (s.mac.dlSlicePolicy.entry i).dedicatedPrbRatio)
      { (beforePass env params s cands i).1 with used := 0 } hcount
      (beforePass env params s cands i).2
    exact hboth
  · rfl

/-- Both accounts of an entry are exact in a call exactly when every commit of its pass passes its
validation and leaves the slot below `max_num_ue`. -/
theorem prbAccounted_iff_commitsClear (s : SlotState) (cands : List DlCandidate)
    (i : Fin maxNumSlices) :
    PrbAccounted env params s cands i ↔ CommitsClear env params s cands i := by
  have hstats := nrDlSlicePrbPolicy_prbUsed_eq_add_used env params s cands i
  by_cases hpass : i.val < s.mac.entries ∧ s.mac.HasPass params i
  · have hrun : passOf env params s cands i = run (passVisit env params s i)
        { (beforePass env params s cands i).1 with used := 0 }
        (beforePass env params s cands i).2 := if_pos hpass
    constructor
    · intro h
      by_contra hnot
      unfold CommitsClear at hnot
      push Not at hnot
      have hok : ∀ v ∈ (passOf env params s cands i).visits,
          ¬ CommitFails (passVisit env params s i) v := by
        intro v hv hfails
        exact (hfails.used_lt env params).ne' (h.failed v hv hfails).1
      have hbudget := h.budget
      rw [hrun] at hok hnot hbudget
      have hlt := run_used_lt env params hok hnot
      rw [Nat.zero_add] at hlt
      exact hlt.ne hbudget
    · intro h
      have hbudget : (passOf env params s cands i).state.used =
          passLoad (beforePass env params s cands i).2 (passOf env params s cands i).items := by
        unfold CommitsClear at h
        rw [hrun] at h ⊢
        have hused := run_used_eq env params h
        rwa [Nat.zero_add] at hused
      refine ⟨by rw [hstats, hbudget], hbudget, fun v hv hfails => ?_⟩
      obtain ⟨a, hatt, hnone⟩ := hfails
      exact absurd hnone (h v hv a hatt).1
  · -- an entry without a pass is charged nothing
    have hidle : passOf env params s cands i =
        ⟨{ (beforePass env params s cands i).1 with used := 0 },
          (beforePass env params s cands i).2, false, []⟩ := if_neg hpass
    constructor
    · intro _ v hv
      rw [hidle] at hv
      exact absurd hv List.not_mem_nil
    · intro _
      have hbudget : (passOf env params s cands i).state.used =
          passLoad (beforePass env params s cands i).2 (passOf env params s cands i).items := by
        rw [hidle, passLoad_self]
      refine ⟨by rw [hstats, hbudget], hbudget, fun v hv => ?_⟩
      rw [hidle] at hv
      exact absurd hv List.not_mem_nil

end Call

/-- An environment in which no validation succeeds. -/
def blockedEnv : SlotEnv :=
  { crowdedEnv flatTbs ⟨1, 1⟩ with nrDlValidateCcePucch := fun _ _ => none }

/-- A UE of the 40 % slice whose commit fails is charged 20 resource blocks. -/
theorem not_prbAccounted_blocked :
    ¬ PrbAccounted blockedEnv twoBeams ⟨SliceState.oneSlice, fun _ _ => 0, 0, 0⟩ [loadedUe 1 0]
      ⟨0, by decide⟩ := by
  intro h
  have hused : (passOf blockedEnv twoBeams ⟨SliceState.oneSlice, fun _ _ => 0, 0, 0⟩
      [loadedUe 1 0] 0).state.used = 20 := by
    decide +kernel
  have hload : passLoad (beforePass blockedEnv twoBeams
      ⟨SliceState.oneSlice, fun _ _ => 0, 0, 0⟩ [loadedUe 1 0] 0).2
      (passOf blockedEnv twoBeams ⟨SliceState.oneSlice, fun _ _ => 0, 0, 0⟩
        [loadedUe 1 0] 0).items = 0 := by
    decide +kernel
  have hbudget := h.budget
  dsimp only at hbudget
  omega

end LlmHric.Mac
