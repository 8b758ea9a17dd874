import LlmHric.Mac.PrbAccounting

/-! The slices with a policy are served in the order of the table, behind retransmissions and
control elements and before the slices without a policy. All passes share the VRB maps, the count of
scheduled candidates and one array of candidates. This file compares two policy calls whose
candidates differ only in new data that is served from some table entry on: the candidates that are
served before come out the same. -/

namespace LlmHric.Mac

open Sweep

/-- The candidate is served before the pass of the entry `i`: it has no new data, or its slice has
a policy with a smaller index. -/
def DlCandidate.servedBefore (mac : SliceState) (i : ℕ) (c : DlCandidate) : Bool :=
  !c.newData ||
    match mac.findSlicePolicy c.nssai with
    | some j => decide (j < i)
    | none => false

/-- The commits among the validations: the candidates whose validation succeeded. -/
def commitsOf (attempts : List Attempt) : List DlCandidate :=
  (attempts.filter fun a => a.outcome.isSome).map Attempt.cand

/-- The outcome of every validation is a function of the commits made before it. -/
def FollowsCommits (V : List DlCandidate → DlCandidate → Option VrbMap)
    (attempts : List Attempt) : Prop :=
  ∀ made a rest, attempts = made ++ a :: rest → a.outcome = V (commitsOf made) a.cand

theorem FollowsCommits.of_prefix {V : List DlCandidate → DlCandidate → Option VrbMap}
    {attempts attempts' : List Attempt} (h : FollowsCommits V attempts')
    (hpre : attempts <+: attempts') : FollowsCommits V attempts := by
  obtain ⟨later, rfl⟩ := hpre
  intro made a rest heq
  exact h made a (rest ++ later) (by rw [heq]; simp)

/-! ### Rounds -/

section Rounds

variable (env env' : SlotEnv) (params : DlSchedParams)

theorem servedBefore_congr {mac : SliceState} {i : ℕ} {c c' : DlCandidate}
    (h : c'.identity = c.identity) : c'.servedBefore mac i = c.servedBefore mac i := by
  have hid : c'.identity.servedBefore mac i = c.identity.servedBefore mac i :=
    congrArg (DlCandidate.servedBefore mac i) h
  exact hid

theorem VisitStep.attempts_isPrefix {s : PassState} {c : DlCandidate}
    {v : Visit PassState DlCandidate} (h : VisitStep env params s c v) :
    s.attempts <+: v.state.attempts := by
  cases h with
  | pass hstate _ => rw [hstate]
  | commit rbStart rbSize _ _ _ hattempts =>
    rw [hattempts]
    exact List.prefix_append _ _

/-- The validation of a round, if it makes one, has the outcome that the commits so far give. -/
def Determined (V : List DlCandidate → DlCandidate → Option VrbMap)
    (visit : PassState → DlCandidate → Visit PassState DlCandidate) (v : PassState × DlCandidate) :
    Prop :=
  ∀ a, (visit v.1 v.2).state.attempts = v.1.attempts ++ [a] →
    a.outcome = V (commitsOf v.1.attempts) a.cand

variable {env env' params}

/-- Two rounds that offer the same block agree when the validation does. -/
theorem commitVisit_congr {s : PassState} {c : DlCandidate} {rbStart rbSize : ℕ}
    (h : env.nrDlValidateCcePucch s.slot.validations
        (c.allocate rbStart rbSize c.schedPdsch.mcs) =
      env'.nrDlValidateCcePucch s.slot.validations
        (c.allocate rbStart rbSize c.schedPdsch.mcs)) :
    commitVisit env params s c rbStart rbSize = commitVisit env' params s c rbStart rbSize := by
  simp only [commitVisit, commitAllocOrStop, commitAlloc, PassState.attempt, h]

theorem exactVisit_eq_of_determined
    {V : List DlCandidate → DlCandidate → Option VrbMap} {wanted : DlCandidate → Bool}
    {neededRbs : DlCandidate → ℕ} (s : PassState) (c : DlCandidate)
    (h : Determined V (exactVisit env params wanted neededRbs) (s, c))
    (h' : Determined V (exactVisit env' params wanted neededRbs) (s, c)) :
    exactVisit env params wanted neededRbs s c = exactVisit env' params wanted neededRbs s c := by
  unfold Determined at h h'
  unfold exactVisit at h h' ⊢
  split_ifs at h h' ⊢
  · rfl
  · split
    next => rfl
    next block hblock =>
      simp only [hblock] at h h'
      exact commitVisit_congr ((h _ rfl).trans (h' _ rfl).symm)

theorem newtxRbSize_congr (htbs : env'.nrComputeTbs = env.nrComputeTbs) (c : DlCandidate)
    (maxRbSize : ℕ) : newtxRbSize env' c maxRbSize = newtxRbSize env c maxRbSize := by
  have htbsBytes : env'.tbsBytes = env.tbsBytes := by
    funext x nbRb
    unfold SlotEnv.tbsBytes
    rw [htbs]
  unfold newtxRbSize
  rw [htbsBytes]

theorem newtxVisit_eq_of_determined (htbs : env'.nrComputeTbs = env.nrComputeTbs)
    {V : List DlCandidate → DlCandidate → Option VrbMap} {policy : Option ℕ}
    {rbBudget : ℕ} (s : PassState) (c : DlCandidate)
    (h : Determined V (newtxVisit env params policy rbBudget) (s, c))
    (h' : Determined V (newtxVisit env' params policy rbBudget) (s, c)) :
    newtxVisit env params policy rbBudget s c = newtxVisit env' params policy rbBudget s c := by
  -- both rounds write the same validation, whether the pass goes on or not
  have hattempts : ∀ (e : SlotEnv) (rbStart rbSize : ℕ),
      (if (commitVisit e params s c rbStart rbSize).stop then
          commitVisit e params s c rbStart rbSize
        else
          { commitVisit e params s c rbStart rbSize with
            state := (commitVisit e params s c rbStart rbSize).state.charge params policy
              rbSize }).state.attempts = s.attempts ++ [s.attempt e c rbStart rbSize] := by
    intro e rbStart rbSize
    split_ifs
    · rfl
    · rfl
  unfold Determined at h h'
  unfold newtxVisit at h h' ⊢
  by_cases hskip : (!newtxServes s.slot.mac policy c) = true
  · rw [if_pos hskip, if_pos hskip]
  · simp only [if_neg hskip] at h h' ⊢
    generalize (if rbBudget > 0 then rbBudget - s.used else 0) = remaining at h h' ⊢
    by_cases hbreak : rbBudget > 0 ∧ remaining < minRbSize
    · rw [if_pos hbreak, if_pos hbreak]
    · simp only [if_neg hbreak] at h h' ⊢
      by_cases hsmall : (getLimitedFreeBlock s.slot.vrbMap c remaining).1 < minRbSize
      · rw [if_pos hsmall, if_pos hsmall]
      · simp only [if_neg hsmall, newtxRbSize_congr htbs] at h h' ⊢
        have hsame := (h _ (hattempts env _ _)).trans (h' _ (hattempts env' _ _)).symm
        rw [commitVisit_congr hsame]

/-- Every validation of a pass is determined when those of the call are. -/
theorem determined_of_mem_visits {V : List DlCandidate → DlCandidate → Option VrbMap}
    {visit : PassState → DlCandidate → Visit PassState DlCandidate}
    (hstep : ∀ s c, VisitStep env params s c (visit s c)) {s : PassState}
    {order : List DlCandidate} (h : FollowsCommits V (run visit s order).state.attempts)
    {v : PassState × DlCandidate} (hv : v ∈ (run visit s order).visits) :
    Determined V visit v := by
  intro a hatt
  have hpre : (visit v.1 v.2).state.attempts <+: (run visit s order).state.attempts :=
    rel_of_mem_visits (R := fun s t => s.attempts <+: t.attempts) (fun _ => List.prefix_refl _)
      (fun _ _ _ => List.IsPrefix.trans) (fun s c => (hstep s c).attempts_isPrefix) hv
  rw [hatt] at hpre
  exact h.of_prefix hpre v.1.attempts a [] rfl

/-- A pass over two lists with the same relevant candidates does the same with them. -/
theorem run_isolated {V : List DlCandidate → DlCandidate → Option VrbMap}
    {visit visit' : PassState → DlCandidate → Visit PassState DlCandidate} {p : DlCandidate → Bool}
    {I : PassState → Prop} (hstep : ∀ s c, VisitStep env params s c (visit s c))
    (hstep' : ∀ s c, VisitStep env' params s c (visit' s c))
    (hagree : ∀ s c, Determined V visit (s, c) → Determined V visit' (s, c) →
      visit s c = visit' s c)
    (hkeep : ∀ c c' : DlCandidate, c'.identity = c.identity → p c' = p c)
    (hinv : ∀ s c, I s → I (visit s c).state) (hinv' : ∀ s c, I s → I (visit' s c).state)
    (hpass : ∀ s c, I s → p c = false → visit s c = .pass s c)
    (hpass' : ∀ s c, I s → p c = false → visit' s c = .pass s c)
    {s : PassState} (hs : I s) {order order' : List DlCandidate}
    (horder : order.filter p = order'.filter p)
    (h : FollowsCommits V (run visit s order).state.attempts)
    (h' : FollowsCommits V (run visit' s order').state.attempts) :
    (run visit s order).state = (run visit' s order').state ∧
      (run visit s order).stopped = (run visit' s order').stopped ∧
      (run visit s order).items.filter p = (run visit' s order').items.filter p := by
  obtain ⟨hstate, hstopped, hitems⟩ := run_filter (l := order) hinv hpass
    (fun s c => hkeep c _ (hstep s c).identity_eq) hs
  obtain ⟨hstate', hstopped', hitems'⟩ := run_filter (l := order') hinv' hpass'
    (fun s c => hkeep c _ (hstep' s c).identity_eq) hs
  -- over the relevant candidates the two passes are in lockstep
  rw [hstate] at h
  rw [hstate', ← horder] at h'
  have hsame : run visit s (order.filter p) = run visit' s (order.filter p) :=
    run_eq_of_agree (fun s c => hagree s c)
      (fun v hv => determined_of_mem_visits hstep h hv)
      (fun v hv => determined_of_mem_visits hstep' h' hv)
  rw [hstate, hstopped, hitems, hstate', hstopped', hitems', ← horder, hsame]
  exact ⟨rfl, rfl, rfl⟩

end Rounds

/-! ### Which pass serves a candidate -/

section Serves

variable {env : SlotEnv} {params : DlSchedParams} {mac : SliceState} {i : ℕ} {c : DlCandidate}

theorem newData_of_not_servedBefore (h : c.servedBefore mac i = false) : c.newData = true := by
  unfold DlCandidate.servedBefore at h
  simpa using (Bool.or_eq_false_iff.mp h).1

/-- A candidate with new data is served before entry `i` exactly when its slice has a policy with a
smaller index. -/
theorem servedBefore_iff (hnew : c.newData = true) :
    c.servedBefore mac i = true ↔ ∃ j < i, mac.findSlicePolicy c.nssai = some j := by
  unfold DlCandidate.servedBefore
  cases hfind : mac.findSlicePolicy c.nssai with
  | none => simp [hnew]
  | some j => simp [hnew]

/-- With distinct slices, the policy of a slice is the one entry in use that belongs to it. -/
theorem SliceState.DistinctSlices.findSlicePolicy_eq (h : mac.DistinctSlices)
    (hen : mac.dlSlicePolicyEnabled = true) {n : Nssai} {k : ℕ} (hk : mac.Governs n k) :
    mac.findSlicePolicy n = some k := by
  obtain ⟨j, hj⟩ := Option.isSome_iff_exists.mp (hk.findSlicePolicy_isSome hen)
  obtain ⟨-, hgov⟩ := SliceState.governs_of_findSlicePolicy hj
  rw [hj, h j hgov.1 k hk.1 hgov.2.1 hk.2.1 (hgov.2.2.trans hk.2.2.symm)]

theorem findSlicePolicy_of_newtxServes (h : mac.DistinctSlices) {k : ℕ} (hk : k < mac.entries)
    (hpass : mac.HasPass params k) (hserves : newtxServes mac (some k) c = true) :
    c.newData = true ∧ mac.findSlicePolicy c.nssai = some k := by
  obtain ⟨-, hnew, hnssai⟩ := (newtxServes_iff (some k)).mp hserves
  unfold SliceState.entries at hk
  split_ifs at hk with hen
  · exact ⟨hnew, h.findSlicePolicy_eq hen ⟨hk, hpass.1, hnssai.symm⟩⟩
  · omega

theorem exactVisit_pass {wanted : DlCandidate → Bool} (neededRbs : DlCandidate → ℕ) (s : PassState)
    (h : wanted c = false) : exactVisit env params wanted neededRbs s c = .pass s c := by
  simp [exactVisit, h]

theorem newtxVisit_pass {policy : Option ℕ} (rbBudget : ℕ) {s : PassState}
    (htable : SameTable mac s.slot.mac) (h : ¬ newtxServes mac policy c = true) :
    newtxVisit env params policy rbBudget s c = .pass s c := by
  rw [← htable.newtxServes_eq] at h
  simp [newtxVisit, h]

/-- The passes before entry `i` pass over the candidates that are served from it on. -/
theorem newtxVisit_pass_of_lt (h : mac.DistinctSlices) {k : ℕ} (hk : k < mac.entries) (hki : k < i)
    (hpass : mac.HasPass params k) (rbBudget : ℕ) {s : PassState}
    (htable : SameTable mac s.slot.mac) (hc : c.servedBefore mac i = false) :
    newtxVisit env params (some k) rbBudget s c = .pass s c := by
  refine newtxVisit_pass rbBudget htable fun hserves => ?_
  obtain ⟨hnew, hfind⟩ := findSlicePolicy_of_newtxServes h hk hpass hserves
  rw [(servedBefore_iff hnew).mpr ⟨k, hki, hfind⟩] at hc
  exact Bool.false_ne_true hc.symm

/-- The passes from entry `i` on pass over the candidates that are served before. -/
theorem newtxVisit_pass_of_ge (h : mac.DistinctSlices) {k : ℕ} (hk : k < mac.entries) (hki : i ≤ k)
    (hpass : mac.HasPass params k) (rbBudget : ℕ) {s : PassState}
    (htable : SameTable mac s.slot.mac) (hc : c.servedBefore mac i = true) :
    newtxVisit env params (some k) rbBudget s c = .pass s c := by
  refine newtxVisit_pass rbBudget htable fun hserves => ?_
  obtain ⟨hnew, hfind⟩ := findSlicePolicy_of_newtxServes h hk hpass hserves
  obtain ⟨j, hj, hfind'⟩ := (servedBefore_iff hnew).mp hc
  have hjk : j = k := Option.some_inj.mp (hfind'.symm.trans hfind)
  omega

/-- So does the last pass. -/
theorem newtxVisit_pass_of_none (rbBudget : ℕ) {s : PassState} (htable : SameTable mac s.slot.mac)
    (hc : c.servedBefore mac i = true) :
    newtxVisit env params none rbBudget s c = .pass s c := by
  refine newtxVisit_pass rbBudget htable fun hserves => ?_
  obtain ⟨-, hnew, hfind⟩ := (newtxServes_iff none).mp hserves
  obtain ⟨j, -, hfind'⟩ := (servedBefore_iff hnew).mp hc
  exact Option.some_ne_none j (hfind'.symm.trans hfind)

end Serves

/-! ### Two calls -/

section Call

variable {env env' : SlotEnv} {params : DlSchedParams} {mac : SliceState} {i : ℕ}
  {V : List DlCandidate → DlCandidate → Option VrbMap}

theorem attempts_isPrefix_run {visit : PassState → DlCandidate → Visit PassState DlCandidate}
    (hstep : ∀ s c, VisitStep env params s c (visit s c)) (s : PassState)
    (order : List DlCandidate) : s.attempts <+: (run visit s order).state.attempts :=
  run_stateInvariant (I := fun t => s.attempts <+: t.attempts)
    (fun t c ht => ht.trans (hstep t c).attempts_isPrefix) (List.prefix_refl _)

theorem attempts_isPrefix_slicesRun (s : PassState) (order : List DlCandidate) {n m : ℕ}
    (h : n ≤ m) :
    (slicesRun env params n s order).1.attempts <+:
      (slicesRun env params m s order).1.attempts := by
  induction m with
  | zero =>
    obtain rfl := Nat.le_zero.mp h
    exact List.prefix_refl _
  | succ m ih =>
    rcases Nat.le_succ_iff.mp h with hle | rfl
    · refine (ih hle).trans ?_
      simp only [slicesRun]
      split_ifs
      · exact attempts_isPrefix_run (newtxVisit_step env params _ _)
          { (slicesRun env params m s order).1 with used := 0 } _
      · exact List.prefix_refl _
    · exact List.prefix_refl _

/-- The early passes do the same with the candidates that are served before entry `i`. -/
theorem earlyRun_isolated {s : PassState} {order order' : List DlCandidate}
    (horder : order.filter (DlCandidate.servedBefore mac i) =
      order'.filter (DlCandidate.servedBefore mac i))
    (h : FollowsCommits V (earlyRun env params s order).state.attempts)
    (h' : FollowsCommits V (earlyRun env' params s order').state.attempts) :
    (earlyRun env params s order).state = (earlyRun env' params s order').state ∧
      (earlyRun env params s order).items.filter (DlCandidate.servedBefore mac i) =
        (earlyRun env' params s order').items.filter (DlCandidate.servedBefore mac i) := by
  have hloop : ∀ (wanted : DlCandidate → Bool) (neededRbs : DlCandidate → ℕ),
      (∀ c : DlCandidate, c.newData = true → wanted c = false) →
      ∀ (t : PassState) (l l' : List DlCandidate),
      l.filter (DlCandidate.servedBefore mac i) = l'.filter (DlCandidate.servedBefore mac i) →
      FollowsCommits V (run (exactVisit env params wanted neededRbs) t l).state.attempts →
      FollowsCommits V (run (exactVisit env' params wanted neededRbs) t l').state.attempts →
      _ := fun wanted neededRbs hwanted t l l' hl hcommits hcommits' =>
    run_isolated (I := fun _ => True) (exactVisit_step env params wanted neededRbs)
      (exactVisit_step env' params wanted neededRbs) exactVisit_eq_of_determined
      (fun _ _ hid => servedBefore_congr hid) (fun _ _ _ => trivial) (fun _ _ _ => trivial)
      (fun t c _ hc => exactVisit_pass neededRbs t (hwanted c (newData_of_not_servedBefore hc)))
      (fun t c _ hc => exactVisit_pass neededRbs t (hwanted c (newData_of_not_servedBefore hc)))
      trivial hl hcommits hcommits'
  have hretx : ∀ c : DlCandidate, c.newData = true → c.isRetx = false := by
    intro c hc
    by_contra hnot
    rw [newData_of_isRetx (by simpa using hnot)] at hc
    exact Bool.false_ne_true hc
  have hnoData : ∀ c : DlCandidate, c.newData = true →
      (!c.isRetx && c.pendingBytes == 0) = false := by
    intro c hc
    by_contra hnot
    rw [newData_of_noData (by simpa using hnot)] at hc
    exact Bool.false_ne_true hc
  -- the first loop is part of the early pass in both calls
  have hfirst : ∀ (e : SlotEnv) (l : List DlCandidate),
      (run (exactVisit e params (fun c => c.isRetx) fun c => c.retxRbSize) s l).state.attempts <+:
        (earlyRun e params s l).state.attempts := by
    intro e l
    simp only [earlyRun]
    split_ifs
    · exact List.prefix_refl _
    · exact attempts_isPrefix_run (exactVisit_step e params _ _) _ _
  obtain ⟨hstate, hstopped, hitems⟩ := hloop _ (fun c => c.retxRbSize) hretx s order order' horder
    (h.of_prefix (hfirst env order)) (h'.of_prefix (hfirst env' order'))
  simp only [earlyRun] at h h' ⊢
  rw [← hstopped] at h' ⊢
  split_ifs at h h' ⊢ with hstop
  · exact ⟨hstate, hitems⟩
  · rw [← hstate] at h' ⊢
    obtain ⟨hstate₂, -, hitems₂⟩ := hloop _ (fun _ => minRbSize) hnoData _ _ _ hitems h h'
    exact ⟨hstate₂, hitems₂⟩

/-- The passes of the entries before `i` do the same with the candidates that are served in them. -/
theorem slicesRun_isolated (hdistinct : mac.DistinctSlices)
    (htbs : env'.nrComputeTbs = env.nrComputeTbs) {s : PassState}
    (htable : SameTable mac s.slot.mac) {order order' : List DlCandidate}
    (horder : order.filter (DlCandidate.servedBefore mac i) =
      order'.filter (DlCandidate.servedBefore mac i)) {n : ℕ} (hni : n ≤ i) (hn : n ≤ mac.entries)
    (h : FollowsCommits V (slicesRun env params n s order).1.attempts)
    (h' : FollowsCommits V (slicesRun env' params n s order').1.attempts) :
    (slicesRun env params n s order).1 = (slicesRun env' params n s order').1 ∧
      (slicesRun env params n s order).2.filter (DlCandidate.servedBefore mac i) =
        (slicesRun env' params n s order').2.filter (DlCandidate.servedBefore mac i) := by
  induction n with
  | zero => exact ⟨rfl, horder⟩
  | succ n ih =>
    obtain ⟨hstate, hitems⟩ := ih (by omega) (by omega)
      (h.of_prefix (attempts_isPrefix_slicesRun s order (Nat.le_succ n)))
      (h'.of_prefix (attempts_isPrefix_slicesRun s order' (Nat.le_succ n)))
    have hbefore : SameTable mac (slicesRun env params n s order).1.slot.mac :=
      htable.trans (slicesRun_sameTable env params n s order)
    have hiff : (slicesRun env params n s order).1.slot.mac.HasPass params n ↔
        mac.HasPass params n := hbefore.hasPass_iff params n
    simp only [slicesRun, policyRun, ← hstate] at h h' ⊢
    split_ifs at h h' ⊢ with hpass
    · have hpass' : mac.HasPass params n := hiff.mp hpass
      have hrun := run_isolated (I := fun t => SameTable mac t.slot.mac)
        (s := { (slicesRun env params n s order).1 with used := 0 })
        (newtxVisit_step env params (some n) _) (newtxVisit_step env' params (some n) _)
        (newtxVisit_eq_of_determined htbs) (fun _ _ hid => servedBefore_congr hid)
        (fun t c ht => ht.trans (newtxVisit_round env params _ _ t c).sameTable)
        (fun t c ht => ht.trans (newtxVisit_round env' params _ _ t c).sameTable)
        (fun t c ht => newtxVisit_pass_of_lt hdistinct hn hni hpass' _ ht)
        (fun t c ht => newtxVisit_pass_of_lt hdistinct hn hni hpass' _ ht)
        hbefore hitems h h'
      exact ⟨hrun.1, hrun.2.2⟩
    · exact ⟨hstate, hitems⟩

/-- The passes from entry `i` on leave the candidates alone that are served before. -/
theorem slicesRun_filter_of_ge (hdistinct : mac.DistinctSlices) {s : PassState}
    (htable : SameTable mac s.slot.mac) (order : List DlCandidate) {n m : ℕ} (hni : i ≤ n)
    (hnm : n ≤ m) (hm : m ≤ mac.entries) :
    (slicesRun env params m s order).2.filter (DlCandidate.servedBefore mac i) =
      (slicesRun env params n s order).2.filter (DlCandidate.servedBefore mac i) := by
  induction m with
  | zero =>
    obtain rfl := Nat.le_zero.mp hnm
    rfl
  | succ m ih =>
    rcases Nat.le_succ_iff.mp hnm with hle | rfl
    · have hbefore : SameTable mac (slicesRun env params m s order).1.slot.mac :=
        htable.trans (slicesRun_sameTable env params m s order)
      rw [← ih hle (by omega)]
      simp only [slicesRun, policyRun]
      split_ifs with hpass
      · rw [hbefore.hasPass_iff] at hpass
        refine run_items_filter (I := fun t => SameTable mac t.slot.mac)
          (fun t c ht => ht.trans (newtxVisit_round env params _ _ t c).sameTable)
          (fun t c ht hc => ?_)
          (fun t c => servedBefore_congr (newtxVisit_step env params _ _ t c).identity_eq) hbefore
        rw [newtxVisit_pass_of_ge hdistinct hm (hni.trans hle) hpass _ ht hc]
        rfl
      · rfl
    · rfl

/-- The passes of a call do the same with the candidates that are served before entry `i`. -/
theorem callRun_isolated (hdistinct : mac.DistinctSlices)
    (htbs : env'.nrComputeTbs = env.nrComputeTbs) {s : PassState} (hmac : s.slot.mac = mac)
    {order order' : List DlCandidate}
    (horder : order.filter (DlCandidate.servedBefore mac i) =
      order'.filter (DlCandidate.servedBefore mac i))
    (h : FollowsCommits V (callRun env params mac.entries s order).state.attempts)
    (h' : FollowsCommits V (callRun env' params mac.entries s order').state.attempts) :
    (callRun env params mac.entries s order).items.filter (DlCandidate.servedBefore mac i) =
      (callRun env' params mac.entries s order').items.filter (DlCandidate.servedBefore mac i) := by
  -- the shared part of the two calls ends with the entry before `i`, or with the table
  obtain ⟨n, hni, hn, hend⟩ : ∃ n, n ≤ i ∧ n ≤ mac.entries ∧ (i ≤ n ∨ n = mac.entries) := by
    rcases Nat.le_total i mac.entries with hle | hle
    · exact ⟨i, le_rfl, hle, .inl le_rfl⟩
    · exact ⟨mac.entries, hle, le_rfl, .inr rfl⟩
  have hlast : ∀ (e : SlotEnv) (l : List DlCandidate),
      (slicesRun e params n (earlyRun e params s l).state (earlyRun e params s l).items).1.attempts
        <+: (callRun e params mac.entries s l).state.attempts := by
    intro e l
    exact (attempts_isPrefix_slicesRun _ _ hn).trans (attempts_isPrefix_run
      (newtxVisit_step e params none 0) { (slicesRun e params mac.entries
        (earlyRun e params s l).state (earlyRun e params s l).items).1 with used := 0 } _)
  have htable : ∀ (e : SlotEnv) (l : List DlCandidate),
      SameTable mac (earlyRun e params s l).state.slot.mac := by
    intro e l
    rw [earlyRun_mac, hmac]
    exact .refl mac
  -- behind it the later passes leave the candidates alone
  have htail : ∀ (e : SlotEnv) (l : List DlCandidate),
      (callRun e params mac.entries s l).items.filter (DlCandidate.servedBefore mac i) =
        (slicesRun e params n (earlyRun e params s l).state
          (earlyRun e params s l).items).2.filter (DlCandidate.servedBefore mac i) := by
    intro e l
    have hslices := slicesRun_sameTable e params mac.entries (earlyRun e params s l).state
      (earlyRun e params s l).items
    have hrest : (slicesRun e params mac.entries (earlyRun e params s l).state
        (earlyRun e params s l).items).2.filter (DlCandidate.servedBefore mac i) =
        (slicesRun e params n (earlyRun e params s l).state
          (earlyRun e params s l).items).2.filter (DlCandidate.servedBefore mac i) := by
      rcases hend with hle | rfl
      · exact slicesRun_filter_of_ge hdistinct (htable e l) _ hle hn le_rfl
      · rfl
    rw [← hrest]
    refine run_items_filter (I := fun t => SameTable mac t.slot.mac)
      (fun t c ht => ht.trans (newtxVisit_round e params none 0 t c).sameTable)
      (fun t c ht hc => ?_)
      (fun t c => servedBefore_congr (newtxVisit_step e params none 0 t c).identity_eq)
      ((htable e l).trans hslices)
    rw [newtxVisit_pass_of_none 0 ht hc]
    rfl
  have hshared := h.of_prefix (hlast env order)
  have hshared' := h'.of_prefix (hlast env' order')
  obtain ⟨hstate, hitems⟩ := earlyRun_isolated horder
    (hshared.of_prefix (attempts_isPrefix_slicesRun _ _ (Nat.zero_le n)))
    (hshared'.of_prefix (attempts_isPrefix_slicesRun _ _ (Nat.zero_le n)))
  rw [htail env order, htail env' order']
  rw [← hstate] at hshared' ⊢
  exact (slicesRun_isolated hdistinct htbs (htable env order) hitems hni hn hshared hshared').2

/-- Two policy calls from one state, whose candidates differ only in new data that is served from
the entry `i` on, leave every candidate that is served before the same: scheduled or not, and with
the same allocation. The validations may depend on all the commits made before them. -/
theorem nrDlSlicePrbPolicy_isolated (s : SlotState) (hdistinct : s.mac.DistinctSlices) (i : ℕ)
    (htbs : env'.nrComputeTbs = env.nrComputeTbs) {cands cands' : List DlCandidate}
    (hcommon : (cands.filter (DlCandidate.servedBefore s.mac i)).Perm
      (cands'.filter (DlCandidate.servedBefore s.mac i)))
    (horder : (buildPfOrder env cands).filter (DlCandidate.servedBefore s.mac i) =
      (buildPfOrder env' cands').filter (DlCandidate.servedBefore s.mac i))
    (h : FollowsCommits V
      (callRun env params s.mac.entries s.enterCall (buildPfOrder env cands)).state.attempts)
    (h' : FollowsCommits V
      (callRun env' params s.mac.entries s.enterCall (buildPfOrder env' cands')).state.attempts) :
    ((nrDlSlicePrbPolicy env params s cands).cands.filter
        (DlCandidate.servedBefore s.mac i)).Perm
      ((nrDlSlicePrbPolicy env' params s cands').cands.filter
        (DlCandidate.servedBefore s.mac i)) := by
  have hitems := callRun_isolated hdistinct htbs (s := s.enterCall) rfl horder h h'
  have hskipped : ((cands.filter fun c => c.skipped).filter
      (DlCandidate.servedBefore s.mac i)).Perm
      ((cands'.filter fun c => c.skipped).filter (DlCandidate.servedBefore s.mac i)) := by
    have hboth := hcommon.filter fun c => c.skipped
    rwa [List.filter_comm, List.filter_comm _ _ cands'] at hboth
  rw [(nrDlSlicePrbPolicy_eq_callRun env params s cands).2,
    (nrDlSlicePrbPolicy_eq_callRun env' params s cands').2, List.filter_append,
    List.filter_append, hitems]
  exact hskipped.append_left _

/-- Validations that depend on the candidate alone follow the commits made before them. -/
theorem callRun_followsCommits {outcome : DlCandidate → Option VrbMap}
    (henv : ∀ k c, env.nrDlValidateCcePucch k c = outcome c) (n : ℕ) (s : SlotState)
    (order : List DlCandidate) :
    FollowsCommits (fun _ => outcome) (callRun env params n s.enterCall order).state.attempts := by
  have hall : ∀ a ∈ (callRun env params n s.enterCall order).state.attempts,
      a.outcome = outcome a.cand := by
    refine callRun_invariant
      (I := fun t _ => ∀ a ∈ t.attempts, a.outcome = outcome a.cand) ?_ (fun _ _ h => h) n
      (fun a ha => absurd ha List.not_mem_nil)
    intro pre t c post v hstep ht a ha
    cases hstep with
    | pass hstate _ =>
      rw [hstate] at ha
      exact ht a ha
    | commit rbStart rbSize _ _ _ hattempts =>
      rw [hattempts] at ha
      rcases List.mem_append.mp ha with ha | ha
      · exact ht a ha
      · obtain rfl := List.mem_singleton.mp ha
        exact henv _ _
  intro made a rest heq
  exact hall a (by rw [heq]; simp)

end Call

/-- A UE of a slice without a policy. -/
def guestUe (rnti : ℕ) : DlCandidate := { loadedUe rnti 0 with nssai := ⟨2, 2⟩ }

/-- An environment in which every validation succeeds. -/
def openEnv : SlotEnv :=
  { crowdedEnv flatTbs ⟨1, 1⟩ with nrDlValidateCcePucch := fun _ _ => some fun _ => 0 }

/-- A UE of a slice without a policy changes nothing for the UE of the 40 % slice. -/
theorem nrDlSlicePrbPolicy_isolated_guest :
    ((nrDlSlicePrbPolicy openEnv { twoBeams with maxNumUe := 2 }
        ⟨SliceState.oneSlice, fun _ _ => 0, 0, 0⟩ [loadedUe 1 0]).cands.filter
        (DlCandidate.servedBefore SliceState.oneSlice 1)).Perm
      ((nrDlSlicePrbPolicy openEnv { twoBeams with maxNumUe := 2 }
        ⟨SliceState.oneSlice, fun _ _ => 0, 0, 0⟩ [guestUe 2, loadedUe 1 0]).cands.filter
        (DlCandidate.servedBefore SliceState.oneSlice 1)) :=
  nrDlSlicePrbPolicy_isolated (V := fun _ _ => some fun _ => 0)
    ⟨SliceState.oneSlice, fun _ _ => 0, 0, 0⟩ oneSlice_distinctSlices 1 rfl
    (List.Perm.of_eq (by decide)) (by decide)
    (callRun_followsCommits (fun _ _ => rfl) _ _ _)
    (callRun_followsCommits (fun _ _ => rfl) _ _ _)

end LlmHric.Mac
