import LlmHric.Mac.SliceIsolation
import LlmHric.Mac.ExclusiveAllocation

/-! A policy call counts the candidates it schedules and is meant to stop at `max_num_ue`. The test
stands in the `COMMIT_ALLOC` block, whose `return` leaves the helper function it is expanded in and
not the policy call: the helpers behind it run all the same, and each of them schedules one more
candidate before it meets the test. -/

namespace LlmHric.Mac

open Sweep

/-! ### Counting candidates -/

/-- The candidate has new data of the slice. -/
def DlCandidate.ofSlice (n : Nssai) (c : DlCandidate) : Bool := c.newData && decide (c.nssai = n)

/-- The number of scheduled candidates of a kind. -/
def scheduledOf (q : DlCandidate → Bool) (order : List DlCandidate) : ℕ :=
  order.countP fun c => c.scheduled && q c

def scheduledCount (order : List DlCandidate) : ℕ := order.countP fun c => c.scheduled

/-- A kind of candidates that the policies do not change. -/
def Lasting (q : DlCandidate → Bool) : Prop :=
  ∀ c c' : DlCandidate, c'.identity = c.identity → q c' = q c

theorem lasting_newData : Lasting DlCandidate.newData := fun c c' h => by
  have hid : c'.identity.newData = c.identity.newData := congrArg DlCandidate.newData h
  exact hid

theorem lasting_isRetx : Lasting DlCandidate.isRetx := fun c c' h => by
  have hid : c'.identity.isRetx = c.identity.isRetx := congrArg DlCandidate.isRetx h
  exact hid

theorem lasting_nssai (q : Nssai → Bool) : Lasting fun c => c.newData && q c.nssai := by
  intro c c' h
  have hid : (c'.identity.newData && q c'.identity.nssai) =
      (c.identity.newData && q c.identity.nssai) := by rw [h]
  exact hid

theorem lasting_ofSlice (n : Nssai) : Lasting (DlCandidate.ofSlice n) :=
  lasting_nssai fun m => decide (m = n)

theorem scheduledOf_le (q : DlCandidate → Bool) (order : List DlCandidate) :
    scheduledOf q order ≤ order.countP q :=
  List.countP_mono_left fun _ _ hc => (Bool.and_eq_true_iff.mp hc).2

theorem scheduledOf_filter (q : DlCandidate → Bool) (order : List DlCandidate) :
    scheduledOf q order = scheduledCount (order.filter q) := by
  unfold scheduledOf scheduledCount
  rw [List.countP_filter]

theorem Unscheduled.scheduledOf_eq_zero {order : List DlCandidate} (h : Unscheduled order)
    (q : DlCandidate → Bool) : scheduledOf q order = 0 :=
  List.countP_eq_zero.mpr fun c hc => by simp [h c hc]

/-- Scheduled candidates are counted once by kind and slice. -/
theorem scheduledCount_eq (order : List DlCandidate) :
    scheduledCount order =
      scheduledOf (fun c => !c.newData) order + scheduledOf DlCandidate.newData order := by
  unfold scheduledCount scheduledOf
  induction order with
  | nil => rfl
  | cons c order ih =>
    simp only [List.countP_cons, ih]
    cases hsched : c.scheduled with
    | false => simp
    | true =>
      cases hnew : c.newData with
      | false =>
        simp only [Bool.not_false, Bool.and_self, if_true, Bool.and_false, Bool.false_eq_true,
          if_false]
        omega
      | true =>
        simp only [Bool.not_true, Bool.and_self, if_true, Bool.and_false, Bool.false_eq_true,
          if_false]
        omega

theorem sum_scheduledOf (F : Finset Nssai) (order : List DlCandidate) :
    ∑ n ∈ F, scheduledOf (DlCandidate.ofSlice n) order =
      scheduledOf (fun c => c.newData && decide (c.nssai ∈ F)) order := by
  unfold scheduledOf
  induction order with
  | nil => simp
  | cons c order ih =>
    simp only [List.countP_cons, Finset.sum_add_distrib, ih]
    congr 1
    -- the candidate is counted for its own slice only
    by_cases hc : (c.scheduled && c.newData) = true
    · obtain ⟨hsched, hnew⟩ := Bool.and_eq_true_iff.mp hc
      simp [DlCandidate.ofSlice, hsched, hnew]
    · rw [Bool.not_eq_true] at hc
      simp [DlCandidate.ofSlice, ← Bool.and_assoc, hc]

theorem sum_scheduledOf_le (F : Finset Nssai) (order : List DlCandidate) :
    ∑ n ∈ F, scheduledOf (DlCandidate.ofSlice n) order ≤
      scheduledOf DlCandidate.newData order := by
  rw [sum_scheduledOf]
  refine List.countP_mono_left fun c _ hc => ?_
  simp only [Bool.and_eq_true] at hc ⊢
  exact ⟨hc.1, hc.2.1⟩

/-- When all the scheduled new data is of some slices, the slices account for it. -/
theorem sum_scheduledOf_eq {F : Finset Nssai} {order : List DlCandidate}
    (h : ∀ c ∈ order, c.scheduled = true → c.newData = true → c.nssai ∈ F) :
    ∑ n ∈ F, scheduledOf (DlCandidate.ofSlice n) order =
      scheduledOf DlCandidate.newData order := by
  rw [sum_scheduledOf]
  refine List.countP_congr fun c hc => ?_
  simp only [Bool.and_eq_true, decide_eq_true_eq]
  exact ⟨fun hx => ⟨hx.1, hx.2.1⟩, fun hx => ⟨hx.1, hx.2, h c hc hx.1 hx.2⟩⟩

/-! ### The count along the rounds -/

/-- The count of the call is the number of scheduled candidates. -/
def Counted (s : PassState) (order : List DlCandidate) : Prop :=
  s.slot.nScheduled = scheduledCount order

section Rounds

variable {env : SlotEnv} {params : DlSchedParams}

variable (env params) in
theorem commitVisit_nScheduled {s : PassState} {c : DlCandidate} {rbStart rbSize : ℕ}
    (hun : c.scheduled = false) :
    (commitVisit env params s c rbStart rbSize).state.slot.nScheduled = s.slot.nScheduled ∧
        (commitVisit env params s c rbStart rbSize).item.scheduled = false ∨
      (commitVisit env params s c rbStart rbSize).state.slot.nScheduled =
          s.slot.nScheduled + 1 ∧
        (commitVisit env params s c rbStart rbSize).item.scheduled = true ∧
        (commitVisit env params s c rbStart rbSize).stop =
          decide (params.maxNumUe ≤ s.slot.nScheduled + 1) := by
  cases hval : env.nrDlValidateCcePucch s.slot.validations
      (c.allocate rbStart rbSize c.schedPdsch.mcs) with
  | none =>
    left
    simp only [commitVisit, commitAllocOrStop_of_none hval]
    exact ⟨trivial, hun⟩
  | some pdcch =>
    right
    simp only [commitVisit, commitAllocOrStop_of_some hval]
    refine ⟨trivial, trivial, ?_⟩
    by_cases hlimit : params.maxNumUe ≤ s.slot.nScheduled + 1
    · simp [hlimit]
    · simp [hlimit]

theorem VisitStep.counted {pre post : List DlCandidate} {s : PassState} {c : DlCandidate}
    {v : Visit PassState DlCandidate} (hstep : VisitStep env params s c v)
    (h : Counted s (pre ++ c :: post)) : Counted v.state (pre ++ v.item :: post) := by
  cases hstep with
  | pass hstate hitem => rwa [hstate, hitem]
  | commit rbStart rbSize hun _ hitem _ hslot =>
    have hcount : v.state.slot.nScheduled =
        (commitVisit env params s c rbStart rbSize).state.slot.nScheduled := by rw [hslot]
    unfold Counted scheduledCount at h ⊢
    rw [hcount, hitem]
    simp only [List.countP_append, List.countP_cons, hun] at h ⊢
    rcases commitVisit_nScheduled env params hun with
      ⟨hn, hsched⟩ | ⟨hn, hsched, -⟩
    · rw [hn, hsched]
      exact h
    · rw [hn, hsched, h]
      simp only [Bool.false_eq_true, if_false, if_true]
      omega

theorem VisitStep.countP_eq {q : DlCandidate → Bool} (hq : Lasting q) {pre post : List DlCandidate}
    {s : PassState} {c : DlCandidate} {v : Visit PassState DlCandidate}
    (hstep : VisitStep env params s c v) :
    (pre ++ v.item :: post).countP q = (pre ++ c :: post).countP q := by
  simp only [List.countP_append, List.countP_cons, hq c v.item hstep.identity_eq]

/-- A round counts one candidate at most, and when that reaches the limit it ends the pass. -/
def StopsAtLimit (params : DlSchedParams)
    (visit : PassState → DlCandidate → Visit PassState DlCandidate) : Prop :=
  ∀ s c, (visit s c).state.slot.nScheduled = s.slot.nScheduled ∨
    (visit s c).state.slot.nScheduled = s.slot.nScheduled + 1 ∧
      ((visit s c).stop = true ∨ s.slot.nScheduled + 1 < params.maxNumUe)

variable (env params) in
theorem exactVisit_stopsAtLimit (wanted : DlCandidate → Bool) (neededRbs : DlCandidate → ℕ) :
    StopsAtLimit params (exactVisit env params wanted neededRbs) := by
  intro s c
  unfold exactVisit
  split_ifs with hskip
  · exact .inl rfl
  · split
    next => exact .inl rfl
    next block _ =>
      have hun : c.scheduled = false := by
        by_contra hnot
        simp [hnot] at hskip
      rcases commitVisit_nScheduled env params hun with
        ⟨hn, -⟩ | ⟨hn, -, hstop⟩
      · exact .inl hn
      · refine .inr ⟨hn, ?_⟩
        rw [hstop]
        by_cases hlimit : params.maxNumUe ≤ s.slot.nScheduled + 1
        · exact .inl (decide_eq_true hlimit)
        · exact .inr (Nat.lt_of_not_le hlimit)

variable (env params) in
theorem newtxVisit_stopsAtLimit (policy : Option ℕ) (rbBudget : ℕ) :
    StopsAtLimit params (newtxVisit env params policy rbBudget) := by
  intro s c
  rcases newtxVisit_cases env params policy rbBudget s c with
    heq | ⟨-, -, heq⟩ | ⟨hserves, rbStart, rbSize, -, -, -, heq⟩
  · rw [heq]
    exact .inl rfl
  · rw [heq]
    exact .inl rfl
  · have hun : c.scheduled = false := ((newtxServes_iff policy).mp hserves).1
    rw [heq]
    rcases commitVisit_nScheduled env params hun with
      ⟨hn, -⟩ | ⟨hn, -, hstop⟩
    · left
      split_ifs
      · exact hn
      · exact hn
    · right
      split_ifs with hend
      · exact ⟨hn, .inl hend⟩
      · rw [hstop, decide_eq_true_eq] at hend
        exact ⟨hn, .inr (Nat.lt_of_not_le hend)⟩

/-- A pass never counts down, it ends at the limit, and a pass that is entered with the limit
reached schedules one more candidate at most. -/
theorem run_nScheduled_le {visit : PassState → DlCandidate → Visit PassState DlCandidate}
    (h : StopsAtLimit params visit) (s : PassState) (order : List DlCandidate) :
    s.slot.nScheduled ≤ (run visit s order).state.slot.nScheduled ∧
      (run visit s order).state.slot.nScheduled ≤ max params.maxNumUe (s.slot.nScheduled + 1) ∧
      ((run visit s order).stopped = false → s.slot.nScheduled < params.maxNumUe →
        (run visit s order).state.slot.nScheduled < params.maxNumUe) := by
  induction order generalizing s with
  | nil =>
    refine ⟨le_rfl, ?_, fun _ hlt => hlt⟩
    dsimp only [run_nil]
    omega
  | cons c order ih =>
    cases hstop : (visit s c).stop with
    | true =>
      rw [run_cons_of_stop hstop]
      rcases h s c with hn | ⟨hn, -⟩
      · dsimp only
        rw [hn]
        exact ⟨le_rfl, by omega, fun hend => absurd hend (by simp)⟩
      · dsimp only
        rw [hn]
        exact ⟨Nat.le_succ _, by omega, fun hend => absurd hend (by simp)⟩
    | false =>
      rw [run_cons_of_not_stop hstop]
      obtain ⟨hup, hle, hgo⟩ := ih (visit s c).state
      rcases h s c with hn | ⟨hn, hend | hroom⟩
      · rw [hn] at hup hle hgo
        exact ⟨hup, hle, hgo⟩
      · exact absurd (hstop.symm.trans hend) (by simp)
      · rw [hn] at hup hle hgo
        refine ⟨by dsimp only; omega, by dsimp only; omega, fun hend _ => hgo hend hroom⟩

/-- A pass that counts a candidate served one, and its budget allowed it. -/
theorem exists_served_of_nScheduled_lt {policy : Option ℕ} {rbBudget : ℕ} {s : PassState}
    {order : List DlCandidate}
    (h : s.slot.nScheduled <
      (run (newtxVisit env params policy rbBudget) s order).state.slot.nScheduled) :
    ∃ c ∈ order, newtxServes s.slot.mac policy c = true ∧
      (0 < rbBudget → minRbSize ≤ rbBudget - s.used) := by
  induction order with
  | nil => exact absurd h (by simp)
  | cons c order ih =>
    rcases newtxVisit_cases env params policy rbBudget s c with
      heq | ⟨-, -, heq⟩ | ⟨hserves, rbStart, rbSize, -, hmin, hmax, -⟩
    · rw [run_cons_pass heq] at h
      obtain ⟨x, hx, hrest⟩ := ih h
      exact ⟨x, List.mem_cons_of_mem c hx, hrest⟩
    · rw [run_cons_of_stop (by rw [heq]), heq] at h
      exact absurd h (by simp)
    · exact ⟨c, List.mem_cons_self, hserves, fun hpos => hmin.trans (hmax hpos)⟩

variable (env params) in
/-- A pass with a budget schedules no more candidates than smallest allocations fit in it. -/
theorem newtxRun_scheduledOf_le (policy : Option ℕ) {rbBudget : ℕ} (hpos : 0 < rbBudget)
    (q : DlCandidate → Bool) (s : PassState) (order : List DlCandidate) :
    minRbSize * scheduledOf q (run (newtxVisit env params policy rbBudget) s order).items ≤
      minRbSize * scheduledOf q order + (rbBudget - s.used) := by
  have hhead : ∀ (c : DlCandidate) (l : List DlCandidate),
      scheduledOf q (c :: l) = scheduledOf q l + if (c.scheduled && q c) = true then 1 else 0 :=
    fun c l => List.countP_cons
  induction order generalizing s with
  | nil => exact Nat.le_add_right _ _
  | cons c order ih =>
    rcases newtxVisit_cases env params policy rbBudget s c with
      heq | ⟨-, -, heq⟩ | ⟨hserves, rbStart, rbSize, -, hmin, hmax, heq⟩
    · rw [run_cons_pass heq, hhead, hhead]
      have hrest := ih s
      simp only [Nat.mul_add]
      omega
    · rw [run_cons_of_stop (by rw [heq]), heq]
      exact Nat.le_add_right _ _
    · -- at most one more, and its resource blocks are part of what is left
      have hroom := hmax hpos
      have hone : ∀ x : DlCandidate, (if (x.scheduled && q x) = true then 1 else 0) ≤ 1 := by
        intro x
        split_ifs
        · exact le_rfl
        · exact Nat.zero_le 1
      unfold minRbSize at hmin ⊢
      split_ifs at heq with hstop
      · rw [run_cons_of_stop (by rw [heq]; exact hstop), heq, hhead, hhead]
        have hitem := hone (commitVisit env params s c rbStart rbSize).item
        omega
      · rw [Bool.not_eq_true] at hstop
        rw [run_cons_of_not_stop (by rw [heq]; exact hstop), heq, hhead, hhead]
        have hitem := hone (commitVisit env params s c rbStart rbSize).item
        have hrest := ih
          ((commitVisit env params s c rbStart rbSize).state.charge params policy rbSize)
        have hused : ((commitVisit env params s c rbStart rbSize).state.charge params policy
          rbSize).used = s.used + rbSize := rfl
        unfold minRbSize at hrest
        rw [hused] at hrest
        dsimp only
        omega

variable (env params) in
/-- A pass leaves the candidates of a kind alone that it does not serve. -/
theorem newtxRun_filter {q : DlCandidate → Bool} (hq : Lasting q) {policy : Option ℕ}
    (rbBudget : ℕ) {mac : SliceState} {s : PassState} (htable : SameTable mac s.slot.mac)
    (h : ∀ c, newtxServes mac policy c = true → q c = false) (order : List DlCandidate) :
    (run (newtxVisit env params policy rbBudget) s order).items.filter q = order.filter q := by
  refine run_items_filter (I := fun t => SameTable mac t.slot.mac)
    (fun t c ht => ht.trans (newtxVisit_round env params policy rbBudget t c).sameTable)
    (fun t c ht hc => ?_) (fun t c => hq c _ (newtxVisit_step env params policy rbBudget t c
      ).identity_eq) htable
  rw [newtxVisit_pass rbBudget ht fun hserves => ?_]
  · rfl
  · rw [h c hserves] at hc
    exact Bool.false_ne_true hc

end Rounds

/-! ### What the helpers before a pass can schedule -/

/-- The candidates of a kind that take part in the policy calls. -/
def waiting (q : Placement → Bool) (places : List Placement) : ℕ :=
  places.countP fun p => !p.skipped && q p

namespace Placement

/-- The candidate has a retransmission or no data. -/
def early (p : Placement) : Bool := !p.newData

/-- The candidate has new data of the slice. -/
def ofSlice (n : Nssai) (p : Placement) : Bool := p.newData && decide (p.nssai = n)

/-- The candidate has new data of a slice without a policy. -/
def guest (mac : SliceState) (p : Placement) : Bool :=
  p.newData && (mac.findSlicePolicy p.nssai).isNone

end Placement

section Reach

variable (params : DlSchedParams) (mac : SliceState)

/-- The smallest allocations that fit in the budget of an entry's pass. -/
def grantsOf (k : ℕ) : ℕ :=
  if mac.HasPass params k then
    totalBudget params (mac.dlSlicePolicy.entry k).dedicatedPrbRatio / minRbSize
  else 0

/-- The smallest allocations that fit in the passes of a slice before entry `p`. -/
def grantsBefore (p : ℕ) (n : Nssai) : ℕ :=
  ∑ k ∈ Finset.range p, if (mac.dlSlicePolicy.entry k).nssai = n then grantsOf params mac k else 0

theorem grantsBefore_succ (p : ℕ) (n : Nssai) :
    grantsBefore params mac (p + 1) n = grantsBefore params mac p n +
      if (mac.dlSlicePolicy.entry p).nssai = n then grantsOf params mac p else 0 :=
  Finset.sum_range_succ _ p

/-- The slices of the entries before `p`. -/
def slicesBefore (p : ℕ) : Finset Nssai :=
  (Finset.range p).image fun k => (mac.dlSlicePolicy.entry k).nssai

/-- The candidates that the helpers before the pass of entry `p` can schedule, with one candidate
of the slice `left` still to go. -/
def reach (places : List Placement) (p : ℕ) (left : Option Nssai) : ℕ :=
  waiting Placement.early places +
    ∑ n ∈ slicesBefore mac p,
      min (waiting (Placement.ofSlice n) places - if left = some n then 1 else 0)
        (grantsBefore params mac p n)

/-- Before every pass that can still schedule a candidate, of the first `n` entries or of the
slices without a policy, fewer candidates than the limit can be scheduled. -/
structure RoomForLast (n : ℕ) (places : List Placement) : Prop where
  policy : ∀ p < n, 0 < grantsOf params mac p →
    0 < waiting (Placement.ofSlice (mac.dlSlicePolicy.entry p).nssai) places →
    reach params mac places p (some (mac.dlSlicePolicy.entry p).nssai) < params.maxNumUe
  guests : 0 < waiting (Placement.guest mac) places →
    reach params mac places n none < params.maxNumUe

/-- The candidates of a pass are those at the placements that take part. -/
def Stands (places : List Placement) (order : List DlCandidate) : Prop :=
  ∀ q : Placement → Bool, (order.countP fun c => q c.placement) = waiting q places

theorem stands_buildPfOrder (env : SlotEnv) (cands : List DlCandidate) :
    Stands (cands.map DlCandidate.placement) (buildPfOrder env cands) := by
  intro q
  unfold waiting buildPfOrder
  rw [(env.pfSort_perm _).countP_eq, List.countP_filter, List.countP_map]
  refine List.countP_congr fun c _ => ?_
  simp [DlCandidate.placement, and_comm]

end Reach

section Upper

variable {env : SlotEnv} {params : DlSchedParams} {mac : SliceState} {places : List Placement}

theorem lasting_placement (q : Placement → Bool) : Lasting fun c => q c.placement := by
  intro c c' h
  have hid : q c'.identity.placement = q c.identity.placement := by rw [h]
  exact hid

/-- The passes keep the placements. -/
theorem VisitStep.stands {pre post : List DlCandidate} {s : PassState} {c : DlCandidate}
    {v : Visit PassState DlCandidate} (hstep : VisitStep env params s c v)
    (h : Stands places (pre ++ c :: post)) : Stands places (pre ++ v.item :: post) := by
  intro q
  rw [hstep.countP_eq (lasting_placement q)]
  exact h q

/-- The early passes leave new data alone. -/
theorem earlyRun_filter (s : PassState) (order : List DlCandidate) :
    (earlyRun env params s order).items.filter DlCandidate.newData =
      order.filter DlCandidate.newData := by
  have hloop : ∀ (wanted : DlCandidate → Bool) (neededRbs : DlCandidate → ℕ),
      (∀ c, wanted c = true → c.newData = false) → ∀ (t : PassState) (l : List DlCandidate),
      (run (exactVisit env params wanted neededRbs) t l).items.filter DlCandidate.newData =
        l.filter DlCandidate.newData := by
    intro wanted neededRbs hwanted t l
    refine run_items_filter (I := fun _ => True) (fun _ _ _ => trivial) (fun t c _ hc => ?_)
      (fun t c => lasting_newData c _ (exactVisit_step env params wanted neededRbs t c).identity_eq)
      trivial
    have hnot : wanted c = false := by
      by_contra hw
      rw [hwanted c (by simpa using hw)] at hc
      exact Bool.false_ne_true hc
    rw [exactVisit_pass neededRbs t hnot]
    rfl
  simp only [earlyRun]
  split_ifs
  · exact hloop _ _ (fun _ => newData_of_isRetx) s order
  · rw [hloop _ _ (fun _ => newData_of_noData), hloop _ _ (fun _ => newData_of_isRetx)]

variable (env params) in
/-- The passes of the entries leave the candidates of a kind alone that none of them serves. -/
theorem slicesRun_filter {q : DlCandidate → Bool} (hq : Lasting q) {s : PassState}
    (htable : SameTable mac s.slot.mac) (order : List DlCandidate) {p : ℕ}
    (h : ∀ k < p, mac.HasPass params k → ∀ c, newtxServes mac (some k) c = true → q c = false) :
    (slicesRun env params p s order).2.filter q = order.filter q := by
  induction p with
  | zero => rfl
  | succ p ih =>
    have hbefore := htable.trans (slicesRun_sameTable env params p s order)
    rw [← ih fun k hk => h k (by omega)]
    simp only [slicesRun, policyRun]
    split_ifs with hpass
    · rw [hbefore.hasPass_iff] at hpass
      exact newtxRun_filter env params hq _
        (s := { (slicesRun env params p s order).1 with used := 0 }) hbefore
        (h p (Nat.lt_succ_self p) hpass) _
    · rfl

theorem ofSlice_eq_false {k : ℕ} {n : Nssai} {c : DlCandidate}
    (hserves : newtxServes mac (some k) c = true)
    (hne : (mac.dlSlicePolicy.entry k).nssai ≠ n) : c.ofSlice n = false := by
  have hnssai := ((newtxServes_iff (some k)).mp hserves).2.2
  dsimp only at hnssai
  simp [DlCandidate.ofSlice, hnssai, hne]

variable (env params) in
/-- The passes before entry `p` schedule no more candidates of a slice than fit in them. -/
theorem slicesRun_scheduledOf_le {s : PassState} (htable : SameTable mac s.slot.mac)
    (order : List DlCandidate) (p : ℕ) (n : Nssai) :
    scheduledOf (DlCandidate.ofSlice n) (slicesRun env params p s order).2 ≤
      scheduledOf (DlCandidate.ofSlice n) order + grantsBefore params mac p n := by
  induction p with
  | zero => exact Nat.le_add_right _ _
  | succ p ih =>
    have hbefore := htable.trans (slicesRun_sameTable env params p s order)
    rw [grantsBefore_succ]
    simp only [slicesRun, policyRun]
    split_ifs with hpass hn hn
    · -- a pass of the slice: its budget bounds what it adds
      have hpass' : mac.HasPass params p := (hbefore.hasPass_iff params p).mp hpass
      have hadd := newtxRun_scheduledOf_le env params (some p) hpass.2
        (DlCandidate.ofSlice n) { (slicesRun env params p s order).1 with used := 0 }
        (slicesRun env params p s order).2
      rw [hbefore.policy] at hadd ⊢
      rw [grantsOf, if_pos hpass']
      unfold minRbSize at hadd ⊢
      dsimp only at hadd ⊢
      omega
    · have hsame := newtxRun_filter env params (lasting_ofSlice n)
        (totalBudget params
          ((slicesRun env params p s order).1.slot.mac.dlSlicePolicy.entry p).dedicatedPrbRatio)
        (s := { (slicesRun env params p s order).1 with used := 0 }) hbefore
        (fun c hserves => ofSlice_eq_false hserves hn) (slicesRun env params p s order).2
      rw [scheduledOf_filter, hsame, ← scheduledOf_filter]
      exact ih
    · omega
    · exact ih

theorem scheduledOf_lt {q : DlCandidate → Bool} {order : List DlCandidate} {c : DlCandidate}
    (hc : c ∈ order) (hun : c.scheduled = false) (hq : q c = true) :
    scheduledOf q order < order.countP q := by
  obtain ⟨pre, post, rfl⟩ := List.append_of_mem hc
  have hpre := scheduledOf_le q pre
  have hpost := scheduledOf_le q post
  unfold scheduledOf at hpre hpost ⊢
  simp only [List.countP_append, List.countP_cons, hun, hq, Bool.false_and, Bool.false_eq_true,
    if_false, if_true]
  omega

theorem scheduledOf_eq_of_filter {q : DlCandidate → Bool} {order order' : List DlCandidate}
    (h : order'.filter q = order.filter q) : scheduledOf q order' = scheduledOf q order := by
  rw [scheduledOf_filter, h, ← scheduledOf_filter]

/-- The state and the candidates before the pass of entry `p`. -/
def sliceStart (env : SlotEnv) (params : DlSchedParams) (s : PassState) (order : List DlCandidate)
    (p : ℕ) : PassState × List DlCandidate :=
  slicesRun env params p (earlyRun env params s order).state (earlyRun env params s order).items

variable (env params) in
theorem sliceStart_sameTable (s : PassState) (order : List DlCandidate) (p : ℕ) :
    SameTable s.slot.mac (sliceStart env params s order p).1.slot.mac := by
  have hearly := earlyRun_mac env params s order
  have hslices := slicesRun_sameTable env params p (earlyRun env params s order).state
    (earlyRun env params s order).items
  rwa [hearly] at hslices

variable (env params) in
theorem sliceStart_counted {s : PassState} {order : List DlCandidate} (h : Counted s order)
    (p : ℕ) : Counted (sliceStart env params s order p).1 (sliceStart env params s order p).2 :=
  slicesRun_invariant (fun _ _ _ _ _ hstep => hstep.counted) (fun _ _ h => h) p
    (earlyRun_invariant (fun _ _ _ _ _ hstep => hstep.counted) h)

variable (env params) in
theorem sliceStart_stands {s : PassState} {order : List DlCandidate} (h : Stands places order)
    (p : ℕ) : Stands places (sliceStart env params s order p).2 :=
  slicesRun_invariant (I := fun _ => Stands places) (fun _ _ _ _ _ hstep => hstep.stands)
    (fun _ _ h => h) p
    (earlyRun_invariant (I := fun _ => Stands places) (fun _ _ _ _ _ hstep => hstep.stands) h)

/-- Before the pass of entry `p`, the scheduled new data is of the slices before it. -/
theorem nssai_mem_slicesBefore {s : PassState} {order : List DlCandidate}
    (hnone : Unscheduled order) {p : ℕ} {c : DlCandidate}
    (hc : c ∈ (sliceStart env params s order p).2)
    (hsched : c.scheduled = true) (hnew : c.newData = true) :
    c.nssai ∈ slicesBefore s.slot.mac p := by
  by_contra hnot
  have hlast : Lasting fun c => c.newData && !decide (c.nssai ∈ slicesBefore s.slot.mac p) :=
    lasting_nssai fun n => !decide (n ∈ slicesBefore s.slot.mac p)
  have htable : SameTable s.slot.mac (earlyRun env params s order).state.slot.mac := by
    rw [earlyRun_mac]
    exact .refl _
  have hsame := slicesRun_filter env params hlast htable
    (earlyRun env params s order).items (p := p) fun k hk _ c hserves => by
      obtain ⟨-, -, hnssai⟩ := (newtxServes_iff (some k)).mp hserves
      dsimp only at hnssai
      have hmem : c.nssai ∈ slicesBefore s.slot.mac p :=
        Finset.mem_image.mpr ⟨k, Finset.mem_range.mpr hk, hnssai.symm⟩
      simp [hmem]
  have hin : c ∈ (earlyRun env params s order).items := by
    have hfilter : c ∈ (sliceStart env params s order p).2.filter
        fun c => c.newData && !decide (c.nssai ∈ slicesBefore s.slot.mac p) :=
      List.mem_filter.mpr ⟨hc, by simp [hnew, hnot]⟩
    unfold sliceStart at hfilter
    rw [hsame] at hfilter
    exact (List.mem_filter.mp hfilter).1
  -- the early passes schedule no new data
  have hfirst : c ∈ order := by
    have hfilter : c ∈ (earlyRun env params s order).items.filter DlCandidate.newData :=
      List.mem_filter.mpr ⟨hin, hnew⟩
    rw [earlyRun_filter] at hfilter
    exact (List.mem_filter.mp hfilter).1
  rw [hnone c hfirst] at hsched
  exact Bool.false_ne_true hsched

variable (env params) in
/-- Before the pass of entry `p` no more candidates of a slice are scheduled than its passes have
grants. -/
theorem sliceStart_scheduledOf_le (s : PassState) {order : List DlCandidate}
    (hnone : Unscheduled order) (p : ℕ) (n : Nssai) :
    scheduledOf (DlCandidate.ofSlice n) (sliceStart env params s order p).2 ≤
      grantsBefore params s.slot.mac p n := by
  have htable : SameTable s.slot.mac (earlyRun env params s order).state.slot.mac := by
    rw [earlyRun_mac]
    exact .refl _
  have hle := slicesRun_scheduledOf_le env params htable (earlyRun env params s order).items p n
  have hstart : scheduledOf (DlCandidate.ofSlice n) (earlyRun env params s order).items = 0 := by
    have hnew : scheduledOf DlCandidate.newData (earlyRun env params s order).items = 0 := by
      rw [scheduledOf_eq_of_filter (earlyRun_filter s order), hnone.scheduledOf_eq_zero]
    have hpart := sum_scheduledOf_le {n} (earlyRun env params s order).items
    rw [Finset.sum_singleton, hnew] at hpart
    exact Nat.le_zero.mp hpart
  rw [hstart, Nat.zero_add] at hle
  exact hle

variable (env params) in
/-- Before the pass of entry `p` no more candidates are scheduled than can be reached, leaving out
one of a slice that still has a candidate to go. -/
theorem sliceStart_nScheduled_le_reach {s : PassState} {order : List DlCandidate}
    (hzero : s.slot.nScheduled = 0) (hnone : Unscheduled order) (hstands : Stands places order)
    (p : ℕ) (left : Option Nssai)
    (hleft : ∀ n, left = some n → ∃ c ∈ (sliceStart env params s order p).2,
      c.scheduled = false ∧ c.ofSlice n = true) :
    (sliceStart env params s order p).1.slot.nScheduled ≤
      reach params s.slot.mac places p left := by
  have hcounted : Counted s order := by
    unfold Counted
    rw [hzero, scheduledCount_eq, hnone.scheduledOf_eq_zero, hnone.scheduledOf_eq_zero]
  have hcount := sliceStart_counted env params hcounted p
  have hplaced := sliceStart_stands env params (s := s) hstands p
  have hearly : scheduledOf (fun c => !c.newData) (sliceStart env params s order p).2 ≤
      waiting Placement.early places :=
    (scheduledOf_le _ _).trans (hplaced Placement.early).le
  have hslice : ∀ n, scheduledOf (DlCandidate.ofSlice n) (sliceStart env params s order p).2 ≤
      min (waiting (Placement.ofSlice n) places - if left = some n then 1 else 0)
        (grantsBefore params s.slot.mac p n) := by
    intro n
    have hwait : (sliceStart env params s order p).2.countP (DlCandidate.ofSlice n) =
        waiting (Placement.ofSlice n) places := hplaced (Placement.ofSlice n)
    refine le_min ?_ ?_
    · rw [← hwait]
      split_ifs with hn
      · obtain ⟨c, hc, hun, hof⟩ := hleft n hn
        exact Nat.le_sub_one_of_lt (scheduledOf_lt hc hun hof)
      · exact scheduledOf_le _ _
    · exact sliceStart_scheduledOf_le env params s hnone p n
  unfold Counted at hcount
  rw [hcount, scheduledCount_eq]
  unfold reach
  refine Nat.add_le_add hearly ?_
  rw [← sum_scheduledOf_eq fun c hc hsched hnew => nssai_mem_slicesBefore hnone hc hsched hnew]
  exact Finset.sum_le_sum fun n _ => hslice n

theorem earlyRun_nScheduled_le (hmax : 1 ≤ params.maxNumUe) {s : PassState}
    (hzero : s.slot.nScheduled = 0) (order : List DlCandidate) :
    (earlyRun env params s order).state.slot.nScheduled ≤ params.maxNumUe := by
  obtain ⟨-, hle, hgo⟩ := run_nScheduled_le (exactVisit_stopsAtLimit env params
    (fun c => c.isRetx) fun c => c.retxRbSize) s order
  simp only [earlyRun]
  split_ifs with hstop
  · omega
  · have hroom := hgo (Bool.not_eq_true _ ▸ hstop) (by omega)
    obtain ⟨-, hle₂, -⟩ := run_nScheduled_le (exactVisit_stopsAtLimit env params
      (fun c => !c.isRetx && c.pendingBytes == 0) fun _ => minRbSize)
      (run (exactVisit env params (fun c => c.isRetx) fun c => c.retxRbSize) s order).state
      (run (exactVisit env params (fun c => c.isRetx) fun c => c.retxRbSize) s order).items
    omega

/-- A pass that is entered within the limit leaves it only if it serves a candidate with the limit
reached. -/
theorem newtxRun_nScheduled_le {policy : Option ℕ} {rbBudget : ℕ} {s : PassState}
    {order : List DlCandidate} (hle : s.slot.nScheduled ≤ params.maxNumUe)
    (h : ∀ c ∈ order, newtxServes s.slot.mac policy c = true →
      (0 < rbBudget → minRbSize ≤ rbBudget - s.used) → s.slot.nScheduled < params.maxNumUe) :
    (run (newtxVisit env params policy rbBudget) s order).state.slot.nScheduled ≤
      params.maxNumUe := by
  by_contra hnot
  have hup : s.slot.nScheduled <
      (run (newtxVisit env params policy rbBudget) s order).state.slot.nScheduled := by omega
  obtain ⟨c, hc, hserves, hbudget⟩ := exists_served_of_nScheduled_lt hup
  have hroom := h c hc hserves hbudget
  have hbound := (run_nScheduled_le (newtxVisit_stopsAtLimit env params
    policy rbBudget) s order).2.1
  omega

theorem waiting_pos {order : List DlCandidate} (hstands : Stands places order)
    {q : Placement → Bool} {c : DlCandidate} (hc : c ∈ order) (hq : q c.placement = true) :
    0 < waiting q places := by
  rw [← hstands q]
  exact List.countP_pos_iff.mpr ⟨c, hc, hq⟩

theorem sliceStart_nScheduled_le (hmax : 1 ≤ params.maxNumUe) {s : PassState}
    {order : List DlCandidate} (hzero : s.slot.nScheduled = 0) (hnone : Unscheduled order)
    (hstands : Stands places order) {n : ℕ} (hroom : RoomForLast params s.slot.mac n places)
    {p : ℕ} (hp : p ≤ n) :
    (sliceStart env params s order p).1.slot.nScheduled ≤ params.maxNumUe := by
  induction p with
  | zero => exact earlyRun_nScheduled_le hmax hzero order
  | succ p ih =>
    have htable := sliceStart_sameTable env params s order p
    have hunfold : sliceStart env params s order (p + 1) =
        if (sliceStart env params s order p).1.slot.mac.HasPass params p then
          ((policyRun env params p (sliceStart env params s order p).1
              (sliceStart env params s order p).2).state,
            (policyRun env params p (sliceStart env params s order p).1
              (sliceStart env params s order p).2).items)
        else sliceStart env params s order p := rfl
    rw [hunfold]
    split_ifs with hpass
    · refine newtxRun_nScheduled_le
        (s := { (sliceStart env params s order p).1 with used := 0 }) (ih (by omega))
        fun c hc hserves hbudget => ?_
      have hpass' : s.slot.mac.HasPass params p := (htable.hasPass_iff params p).mp hpass
      have hgrants : 0 < grantsOf params s.slot.mac p := by
        have hsize := hbudget hpass.2
        rw [htable.policy] at hsize
        rw [grantsOf, if_pos hpass']
        exact Nat.div_pos hsize (by decide)
      -- the served candidate is still to go, so it is not among those scheduled before
      obtain ⟨hun, hnew, hnssai⟩ := (newtxServes_iff (some p)).mp hserves
      dsimp only at hnssai
      rw [htable.policy] at hnssai
      have hof : c.ofSlice (s.slot.mac.dlSlicePolicy.entry p).nssai = true := by
        simp [DlCandidate.ofSlice, hnew, hnssai]
      have hreach := sliceStart_nScheduled_le_reach env params hzero hnone hstands p
        (some (s.slot.mac.dlSlicePolicy.entry p).nssai) fun m hm =>
          ⟨c, hc, hun, Option.some_inj.mp hm ▸ hof⟩
      exact hreach.trans_lt (hroom.policy p hp hgrants
        (waiting_pos (sliceStart_stands env params (s := s) hstands p) hc hof))
    · exact ih (by omega)

/-- With room for every pass that can still schedule a candidate, a call keeps to the limit. -/
theorem callRun_nScheduled_le (hmax : 1 ≤ params.maxNumUe) {s : PassState}
    {order : List DlCandidate} (hzero : s.slot.nScheduled = 0) (hnone : Unscheduled order)
    (hstands : Stands places order) {n : ℕ} (hroom : RoomForLast params s.slot.mac n places) :
    (callRun env params n s order).state.slot.nScheduled ≤ params.maxNumUe := by
  have htable := sliceStart_sameTable env params s order n
  refine newtxRun_nScheduled_le (s := { (sliceStart env params s order n).1 with used := 0 })
    (sliceStart_nScheduled_le hmax hzero hnone hstands hroom le_rfl) fun c hc hserves _ => ?_
  obtain ⟨-, hnew, hfind⟩ := (newtxServes_iff none).mp hserves
  dsimp only at hfind
  have hguest : Placement.guest s.slot.mac c.placement = true := by
    have hsame : (sliceStart env params s order n).1.slot.mac.findSlicePolicy c.nssai =
        s.slot.mac.findSlicePolicy c.nssai := by
      unfold SliceState.findSlicePolicy
      rw [htable.policy, htable.count, htable.enabled]
    rw [hsame] at hfind
    simp [Placement.guest, DlCandidate.placement, hnew, hfind]
  have hreach := sliceStart_nScheduled_le_reach env params hzero hnone hstands n none
    fun m hm => absurd hm (by simp)
  exact hreach.trans_lt (hroom.guests
    (waiting_pos (sliceStart_stands env params (s := s) hstands n) hc hguest))

end Upper

end LlmHric.Mac
