import LlmHric.Mac.DlScheduler
import Mathlib

/-! A slice with a policy is meant to get no more new-data resource blocks in a slot than its
dedicated share of the resource blocks of all beams. The scheduler keeps to that budget within one
policy call, but it calls the policy once for each beam and grants the whole budget again in every
call. -/

namespace LlmHric.Mac

/-- The candidate has new data of the slice. -/
def DlCandidate.OfSlice (n : Nssai) (c : DlCandidate) : Prop := c.newData = true ∧ c.nssai = n

instance (n : Nssai) (c : DlCandidate) : Decidable (c.OfSlice n) := by
  unfold DlCandidate.OfSlice
  infer_instance

/-- The resource blocks a candidate takes from a slice. -/
def sliceShare (n : Nssai) (c : DlCandidate) : ℕ :=
  if c.scheduled = true ∧ c.OfSlice n then c.schedPdsch.rbSize else 0

/-- The resource blocks given to the new data of a slice. -/
def sliceLoad (n : Nssai) (cands : List DlCandidate) : ℕ := (cands.map (sliceShare n)).sum

/-- The dedicated share of the resource blocks of all beams, rounded down for each beam. -/
def sliceCap (params : DlSchedParams) (dedicatedPrbRatio : ℕ) : ℕ :=
  ∑ b ∈ Finset.range params.numBeams, params.nRbAvail b * dedicatedPrbRatio / 100

/-- The budget of a policy call is the cap of the whole slot. -/
theorem totalBudget_eq (params : DlSchedParams) (ratio : ℕ) :
    totalBudget params ratio = sliceCap params ratio := by
  unfold totalBudget sliceCap
  generalize params.numBeams = beams
  induction beams with
  | zero => rfl
  | succ b ih => rw [List.range_succ, List.foldl_append, ih, Finset.sum_range_succ]; rfl

@[simp] theorem totalBudget_zero (params : DlSchedParams) : totalBudget params 0 = 0 := by
  simp [totalBudget_eq, sliceCap]

/-! ### Load of a list of candidates -/

section Load

variable {n : Nssai} {c c' : DlCandidate} {cands cands' : List DlCandidate}
  {serves : DlCandidate → Prop} {s s' : SlotState}

@[simp] theorem sliceLoad_nil : sliceLoad n [] = 0 := rfl

@[simp] theorem sliceLoad_cons : sliceLoad n (c :: cands) = sliceShare n c + sliceLoad n cands := by
  simp [sliceLoad]

@[simp] theorem sliceLoad_append :
    sliceLoad n (cands ++ cands') = sliceLoad n cands + sliceLoad n cands' := by
  simp [sliceLoad]

theorem sliceShare_of_unscheduled (h : c.scheduled = false) : sliceShare n c = 0 := by
  simp [sliceShare, h]

theorem sliceShare_of_not_ofSlice (h : ¬ c.OfSlice n) : sliceShare n c = 0 := by
  simp [sliceShare, h]

theorem sliceShare_le_rbSize (c : DlCandidate) : sliceShare n c ≤ c.schedPdsch.rbSize := by
  unfold sliceShare
  split_ifs
  · exact le_rfl
  · exact Nat.zero_le _

theorem sliceLoad_eq_zero (h : ∀ c ∈ cands, sliceShare n c = 0) : sliceLoad n cands = 0 := by
  refine List.sum_eq_zero fun x hx => ?_
  obtain ⟨c, hc, rfl⟩ := List.mem_map.mp hx
  exact h c hc

theorem ofSlice_congr (h : c'.identity = c.identity) : c'.OfSlice n ↔ c.OfSlice n := by
  have hnew : c'.identity.newData = c.identity.newData := congrArg DlCandidate.newData h
  have hnssai : c'.identity.nssai = c.identity.nssai := congrArg DlCandidate.nssai h
  exact and_congr (iff_of_eq (congrArg (· = true) hnew)) (iff_of_eq (congrArg (· = n) hnssai))

/-- A pass never takes an allocation back. -/
theorem Served.share_le (h : Served serves c c') : sliceShare n c ≤ sliceShare n c' := by
  rcases h with rfl | ⟨-, hun, -⟩
  · exact le_rfl
  · rw [sliceShare_of_unscheduled hun]
    exact Nat.zero_le _

theorem Served.share_eq (h : Served serves c c') (hnot : serves c → ¬ c.OfSlice n) :
    sliceShare n c' = sliceShare n c := by
  rcases h with rfl | ⟨hserves, -, hid⟩
  · rfl
  · have hc : ¬ c.OfSlice n := hnot hserves
    have hc' : ¬ c'.OfSlice n := fun h => hc ((ofSlice_congr hid).mp h)
    rw [sliceShare_of_not_ofSlice hc, sliceShare_of_not_ofSlice hc']

theorem Advances.load_le (h : Advances serves s cands s' cands') :
    sliceLoad n cands ≤ sliceLoad n cands' := by
  have hcands := h.cands
  clear h
  induction hcands with
  | nil => exact le_rfl
  | cons hhead _ ih =>
    rw [sliceLoad_cons, sliceLoad_cons]
    exact Nat.add_le_add hhead.share_le ih

/-- A pass that serves no new data of a slice keeps the load of the slice. -/
theorem Advances.load_eq (h : Advances serves s cands s' cands')
    (hnot : ∀ c, serves c → ¬ c.OfSlice n) : sliceLoad n cands' = sliceLoad n cands := by
  have hcands := h.cands
  clear h
  induction hcands with
  | nil => rfl
  | cons hhead _ ih => rw [sliceLoad_cons, sliceLoad_cons, hhead.share_eq (hnot _), ih]

/-- Candidates of other slices stay without load for the slice. -/
theorem Advances.load_eq_zero (h : Advances serves s cands s' cands')
    (hnot : ∀ c ∈ cands, ¬ c.OfSlice n) : sliceLoad n cands' = 0 := by
  refine sliceLoad_eq_zero fun c' hc' => sliceShare_of_not_ofSlice ?_
  obtain ⟨c, hc, hid⟩ := h.exists_of_mem hc'
  exact fun h => hnot c hc ((ofSlice_congr hid).mp h)

end Load

/-- What a pass can still hand out of a budget. -/
def grantable (rest : ℕ) : ℕ := if rest < minRbSize then 0 else rest

theorem grantable_sub_add_le {rest rbSize : ℕ} (hmin : minRbSize ≤ rbSize) (hle : rbSize ≤ rest) :
    rbSize + grantable (rest - rbSize) ≤ grantable rest := by
  unfold grantable
  split_ifs <;> omega

section Newtx

variable (env : SlotEnv) (params : DlSchedParams) (n : Nssai)

theorem sliceShare_commit_le (s : SlotState) {c : DlCandidate} (hun : c.scheduled = false)
    (rbStart rbSize mcs : ℕ) :
    sliceShare n (commitAllocOrStop env params s c rbStart rbSize mcs).cand ≤ rbSize := by
  cases h : env.nrDlValidateCcePucch s.validations (c.allocate rbStart rbSize mcs) with
  | none =>
    have hun' : (c.allocate rbStart rbSize mcs).scheduled = false := hun
    rw [commitAllocOrStop_of_none h]
    exact (sliceShare_of_unscheduled hun').le.trans (Nat.zero_le rbSize)
  | some pdcch =>
    rw [commitAllocOrStop_of_some h]
    exact sliceShare_le_rbSize { c.allocate rbStart rbSize mcs with scheduled := true }

/-- A new-data pass with a budget hands out no more than what is left of it. -/
theorem allocNewtxPf_load_le (policy : Option ℕ) {rbBudget : ℕ} (hpos : 0 < rbBudget) (used : ℕ)
    (s : SlotState) (order : List DlCandidate) :
    sliceLoad n (allocNewtxPf env params policy rbBudget used s order).order ≤
      sliceLoad n order + grantable (rbBudget - used) := by
  induction order generalizing used s with
  | nil => exact Nat.zero_le _
  | cons c order ih =>
    rcases allocNewtxPf_cons env params policy rbBudget used s c order with
      heq | ⟨-, -, heq⟩ | ⟨hserves, rbStart, rbSize, hsize, heq | heq⟩
    · rw [heq, Pass.after_order, sliceLoad_cons, sliceLoad_cons]
      have hrest := ih used s
      omega
    · rw [heq]
      exact Nat.le_add_right _ _
    · -- the slot is full: the rest of the candidates keeps its load
      have hshare := sliceShare_commit_le env params n s
        ((newtxServes_iff policy).mp hserves).1 rbStart rbSize c.schedPdsch.mcs
      have hgrant := grantable_sub_add_le (hsize hpos).1 (hsize hpos).2
      rw [heq, sliceLoad_cons, sliceLoad_cons]
      omega
    · -- a failed commit uses up budget without adding load, so the bound holds for both outcomes
      have hshare := sliceShare_commit_le env params n s
        ((newtxServes_iff policy).mp hserves).1 rbStart rbSize c.schedPdsch.mcs
      have hgrant := grantable_sub_add_le (hsize hpos).1 (hsize hpos).2
      rw [heq, Pass.after_order, sliceLoad_cons, sliceLoad_cons]
      have hrest := ih (used + rbSize) { (commitAllocOrStop env params s c rbStart rbSize
        c.schedPdsch.mcs).state with mac := addSlicePolicyPrbStats params (commitAllocOrStop env
        params s c rbStart rbSize c.schedPdsch.mcs).state.mac policy rbSize }
      rw [Nat.sub_add_eq] at hrest
      omega

end Newtx

/-! ### One policy call -/

namespace SliceState

/-- The table entry `i` is in use, and no other entry in use belongs to its slice. -/
structure OwnsSlice (mac : SliceState) (i : ℕ) : Prop where
  lt_count : i < mac.dlSlicePolicyCount
  active : (mac.dlSlicePolicy.entry i).active = true
  unique : ∀ j < mac.dlSlicePolicyCount, (mac.dlSlicePolicy.entry j).active = true →
    (mac.dlSlicePolicy.entry j).nssai = (mac.dlSlicePolicy.entry i).nssai → j = i

/-- The pass of another entry serves no candidate of the slice. -/
theorem OwnsSlice.not_ofSlice_of_ne {mac : SliceState} {i k : ℕ} (h : mac.OwnsSlice i)
    (hk : k < mac.dlSlicePolicyCount) (hactive : (mac.dlSlicePolicy.entry k).active = true)
    (hne : k ≠ i) (c : DlCandidate) (hserves : newtxServes mac (some k) c = true) :
    ¬ c.OfSlice (mac.dlSlicePolicy.entry i).nssai := by
  intro hslice
  have hnssai : c.nssai = (mac.dlSlicePolicy.entry k).nssai :=
    ((newtxServes_iff (some k)).mp hserves).2.2
  exact hne (h.unique k hk hactive (hnssai.symm.trans hslice.2))

end SliceState

section Policy

variable (env : SlotEnv) (params : DlSchedParams)

/-- The loop over the policies skips an entry without a budget, and runs a new-data pass for an
entry with one. -/
theorem allocSlices_succ (remaining i : ℕ) (s : SlotState) (order : List DlCandidate) :
    (¬ ((s.mac.dlSlicePolicy.entry i).active = true ∧
          0 < totalBudget params (s.mac.dlSlicePolicy.entry i).dedicatedPrbRatio) ∧
        allocSlices env params (remaining + 1) i s order =
          allocSlices env params remaining (i + 1) s order) ∨
      ((s.mac.dlSlicePolicy.entry i).active = true ∧
          0 < totalBudget params (s.mac.dlSlicePolicy.entry i).dedicatedPrbRatio) ∧
        let pass := allocNewtxPf env params (some i)
          (totalBudget params (s.mac.dlSlicePolicy.entry i).dedicatedPrbRatio) 0 s order
        allocSlices env params (remaining + 1) i s order =
          allocSlices env params remaining (i + 1) pass.state pass.order := by
  simp only [allocSlices]
  split_ifs with hskip hbudget
  · refine .inl ⟨fun ⟨hactive, hpos⟩ => ?_, rfl⟩
    have hratio : (s.mac.dlSlicePolicy.entry i).dedicatedPrbRatio = 0 := by
      simpa [hactive] using hskip
    rw [hratio, totalBudget_zero] at hpos
    exact hpos.false
  · exact .inl ⟨fun ⟨_, hpos⟩ => hbudget.not_gt hpos, rfl⟩
  · have hactive : (s.mac.dlSlicePolicy.entry i).active = true := by
      by_contra hnot
      simp [hnot] at hskip
    exact .inr ⟨⟨hactive, Nat.lt_of_not_le hbudget⟩, rfl⟩

theorem newData_of_newtxServes {mac : SliceState} {policy : Option ℕ} {c : DlCandidate}
    (h : newtxServes mac policy c = true) : c.newData = true :=
  ((newtxServes_iff policy).mp h).2.1

theorem allocSlices_advances (remaining i : ℕ) (s : SlotState) (order : List DlCandidate) :
    Advances (fun c => c.newData = true) s order
      (allocSlices env params remaining i s order).1
      (allocSlices env params remaining i s order).2 := by
  induction remaining generalizing i s order with
  | zero => exact .refl _ s order
  | succ remaining ih =>
    rcases allocSlices_succ env params remaining i s order with ⟨-, heq⟩ | ⟨-, heq⟩
    · rw [heq]
      exact ih (i + 1) s order
    · rw [heq]
      refine Advances.trans ?_ (ih _ _ _)
      exact (allocNewtxPf_advances env params _ _ 0 s order (.refl s.mac)).mono
        fun c => newData_of_newtxServes

/-- The loop over the policies gives a slice no more than the budget of its own entry. -/
theorem allocSlices_load_le {mac : SliceState} {i : ℕ} (hown : mac.OwnsSlice i)
    (remaining k : ℕ) (s : SlotState) (order : List DlCandidate) (htable : SameTable mac s.mac)
    (hcount : k + remaining ≤ mac.dlSlicePolicyCount) :
    sliceLoad (mac.dlSlicePolicy.entry i).nssai (allocSlices env params remaining k s order).2 ≤
      sliceLoad (mac.dlSlicePolicy.entry i).nssai order +
        if k ≤ i then grantable (totalBudget params (mac.dlSlicePolicy.entry i).dedicatedPrbRatio)
        else 0 := by
  induction remaining generalizing k s order with
  | zero => exact Nat.le_add_right _ _
  | succ remaining ih =>
    rcases allocSlices_succ env params remaining k s order with ⟨-, heq⟩ | ⟨⟨hactive, hpos⟩, heq⟩
    · rw [heq]
      refine (ih (k + 1) s order htable (by omega)).trans (Nat.add_le_add_left ?_ _)
      split_ifs <;> omega
    · have hadv := allocNewtxPf_advances env params (some k)
        (totalBudget params (s.mac.dlSlicePolicy.entry k).dedicatedPrbRatio) 0 s order htable
      rw [heq]
      refine (ih (k + 1) _ _ (htable.trans hadv.table) (by omega)).trans ?_
      by_cases hki : k = i
      · -- the entry of the slice itself: the pass hands out at most its budget
        subst hki
        have hpass := allocNewtxPf_load_le env params (mac.dlSlicePolicy.entry k).nssai (some k)
          hpos 0 s order
        rw [htable.policy, Nat.sub_zero] at hpass
        rw [if_neg (Nat.not_succ_le_self k), if_pos le_rfl, htable.policy]
        omega
      · -- another entry: its slice is a different one
        rw [htable.policy] at hactive
        rw [hadv.load_eq (hown.not_ofSlice_of_ne (by omega) hactive hki)]
        refine Nat.add_le_add_left ?_ _
        split_ifs <;> omega

/-- The first passes of a policy call, over the candidates in PF order. -/
def earlyPass (s : SlotState) (order : List DlCandidate) : Pass :=
  allocRetxAndNoDataPf env params { s with nScheduled := 0 } order

/-- A policy call up to the last slice with a policy. -/
def policyPasses (s : SlotState) (order : List DlCandidate) : SlotState × List DlCandidate :=
  allocSlices env params s.mac.dlSlicePolicyCount 0 (earlyPass env params s order).state
    (earlyPass env params s order).order

/-- All the passes of a policy call. -/
def slicePasses (s : SlotState) (order : List DlCandidate) : Pass :=
  allocNewtxPf env params none 0 0 (policyPasses env params s order).1
    (policyPasses env params s order).2

theorem nrDlSlicePrbPolicy_eq {s : SlotState} (hen : s.mac.dlSlicePolicyEnabled = true)
    (hcount : 0 < s.mac.dlSlicePolicyCount) (cands : List DlCandidate) :
    nrDlSlicePrbPolicy env params s cands =
      (slicePasses env params s (buildPfOrder env cands)).finish cands := by
  have hguard : ¬ (!s.mac.dlSlicePolicyEnabled || s.mac.dlSlicePolicyCount == 0) = true := by
    simp [hen, hcount.ne']
  rw [nrDlSlicePrbPolicy, if_neg hguard]
  rfl

theorem earlyPass_advances (s : SlotState) (order : List DlCandidate) :
    Advances (fun c => c.newData = false) s order (earlyPass env params s order).state
      (earlyPass env params s order).order := by
  have h := allocRetxAndNoDataPf_advances env params { s with nScheduled := 0 } order
  exact ⟨h.table, h.cands⟩

theorem policyPasses_advances (s : SlotState) (order : List DlCandidate) :
    Advances (fun _ => True) s order (policyPasses env params s order).1
      (policyPasses env params s order).2 :=
  (earlyPass_advances env params s order).weaken.trans
    (allocSlices_advances env params _ _ _ _).weaken

theorem slicePasses_advances (s : SlotState) (order : List DlCandidate) :
    Advances (fun _ => True) s order (slicePasses env params s order).state
      (slicePasses env params s order).order :=
  (policyPasses_advances env params s order).trans
    (allocNewtxPf_advances env params none 0 0 _ _ (.refl _)).weaken

/-- The passes of a policy call give a slice no more than its budget. -/
theorem slicePasses_load_le {mac : SliceState} {i : ℕ} (hown : mac.OwnsSlice i) {s : SlotState}
    (htable : SameTable mac s.mac) (hen : mac.dlSlicePolicyEnabled = true)
    (order : List DlCandidate) :
    sliceLoad (mac.dlSlicePolicy.entry i).nssai (slicePasses env params s order).order ≤
      sliceLoad (mac.dlSlicePolicy.entry i).nssai order +
        grantable (totalBudget params (mac.dlSlicePolicy.entry i).dedicatedPrbRatio) := by
  have hearly := earlyPass_advances env params s order
  have hpolicy := policyPasses_advances env params s order
  have hlast := allocNewtxPf_advances env params none 0 0 (policyPasses env params s order).1
    (policyPasses env params s order).2 (htable.trans hpolicy.table)
  have hmid := allocSlices_load_le env params hown s.mac.dlSlicePolicyCount 0
    (earlyPass env params s order).state (earlyPass env params s order).order
    (htable.trans hearly.table) (by rw [htable.count]; omega)
  rw [hearly.load_eq fun c hc hslice => Bool.false_ne_true (hc.symm.trans hslice.1),
    if_pos (Nat.zero_le i)] at hmid
  rw [slicePasses, hlast.load_eq]
  · exact hmid
  · -- the slice has an entry in the table, so the last pass does not serve it
    intro c hserves hslice
    have hnone : mac.findSlicePolicy c.nssai = none := ((newtxServes_iff none).mp hserves).2.2
    have hgov : mac.Governs c.nssai i := ⟨hown.lt_count, hown.active, hslice.2.symm⟩
    have hsome := hgov.findSlicePolicy_isSome hen
    rw [hnone] at hsome
    exact Bool.false_ne_true hsome

/-- The candidate has new data of the slice and was not dropped before the policy call. -/
def DlCandidate.Eligible (n : Nssai) (c : DlCandidate) : Prop := c.OfSlice n ∧ c.skipped = false

instance (n : Nssai) (c : DlCandidate) : Decidable (c.Eligible n) := by
  unfold DlCandidate.Eligible
  infer_instance

/-- No candidate with new data is scheduled yet. -/
def Fresh (cands : List DlCandidate) : Prop :=
  ∀ c ∈ cands, c.newData = true → c.scheduled = false

theorem Fresh.load_eq_zero {n : Nssai} {cands : List DlCandidate} (h : Fresh cands) :
    sliceLoad n cands = 0 := by
  refine sliceLoad_eq_zero fun c hc => ?_
  by_cases hslice : c.OfSlice n
  · exact sliceShare_of_unscheduled (h c hc hslice.1)
  · exact sliceShare_of_not_ofSlice hslice

theorem mem_buildPfOrder {cands : List DlCandidate} {c : DlCandidate} :
    c ∈ buildPfOrder env cands ↔ c ∈ cands ∧ c.skipped = false := by
  rw [buildPfOrder, (env.pfSort_perm _).mem_iff, List.mem_filter, Bool.not_eq_true']

theorem Fresh.buildPfOrder {cands : List DlCandidate} (h : Fresh cands) :
    Fresh (buildPfOrder env cands) :=
  fun c hc => h c ((mem_buildPfOrder env).mp hc).1

theorem Fresh.skipped {cands : List DlCandidate} (h : Fresh cands) :
    Fresh (cands.filter fun c => c.skipped) :=
  fun c hc => h c (List.mem_filter.mp hc).1

variable {mac : SliceState} {i : ℕ} {s : SlotState} {cands : List DlCandidate}

/-- The MAC state has the table of `mac`, with the policies switched on. -/
structure Enforces (mac : SliceState) (i : ℕ) (s : SlotState) : Prop where
  owns : mac.OwnsSlice i
  table : SameTable mac s.mac
  enabled : mac.dlSlicePolicyEnabled = true

theorem Enforces.call_eq (h : Enforces mac i s) (cands : List DlCandidate) :
    nrDlSlicePrbPolicy env params s cands =
      (slicePasses env params s (buildPfOrder env cands)).finish cands :=
  nrDlSlicePrbPolicy_eq env params (h.table.enabled.trans h.enabled)
    (by rw [h.table.count]; exact (Nat.zero_le i).trans_lt h.owns.lt_count) cands

theorem Enforces.next (h : Enforces mac i s) (cands : List DlCandidate) :
    Enforces mac i (nrDlSlicePrbPolicy env params s cands).state := by
  rw [h.call_eq]
  exact ⟨h.owns, h.table.trans (slicePasses_advances env params s _).table, h.enabled⟩

/-- A policy call gives a slice no more than the slice's cap for the whole slot. -/
theorem nrDlSlicePrbPolicy_load_le (h : Enforces mac i s) (hfresh : Fresh cands) :
    sliceLoad (mac.dlSlicePolicy.entry i).nssai (nrDlSlicePrbPolicy env params s cands).cands ≤
      grantable (sliceCap params (mac.dlSlicePolicy.entry i).dedicatedPrbRatio) := by
  have hpasses := slicePasses_load_le env params h.owns h.table h.enabled (buildPfOrder env cands)
  rw [(hfresh.buildPfOrder env).load_eq_zero, Nat.zero_add, totalBudget_eq] at hpasses
  rw [h.call_eq, Pass.finish, sliceLoad_append, hfresh.skipped.load_eq_zero]
  exact hpasses

/-- A policy call gives nothing to a slice without a candidate. -/
theorem nrDlSlicePrbPolicy_load_eq_zero (h : Enforces mac i s) (hfresh : Fresh cands)
    (hnone : ∀ c ∈ cands, ¬ c.Eligible (mac.dlSlicePolicy.entry i).nssai) :
    sliceLoad (mac.dlSlicePolicy.entry i).nssai
      (nrDlSlicePrbPolicy env params s cands).cands = 0 := by
  have hadv := slicePasses_advances env params s (buildPfOrder env cands)
  rw [h.call_eq, Pass.finish, sliceLoad_append, hfresh.skipped.load_eq_zero, Nat.add_zero]
  refine hadv.load_eq_zero fun c hc hslice => ?_
  obtain ⟨hmem, hskip⟩ := (mem_buildPfOrder env).mp hc
  exact hnone c hmem ⟨hslice, hskip⟩

/-- A slice gets nothing in a slot whose calls cannot give it anything. -/
theorem allocBeams_load_eq_zero {beams : List (List DlCandidate)} (h : Enforces mac i s)
    (hfresh : ∀ g ∈ beams, Fresh g)
    (hzero : ∀ g ∈ beams,
      grantable (sliceCap params (mac.dlSlicePolicy.entry i).dedicatedPrbRatio) = 0 ∨
        ∀ c ∈ g, ¬ c.Eligible (mac.dlSlicePolicy.entry i).nssai) :
    sliceLoad (mac.dlSlicePolicy.entry i).nssai (allocBeams env params s beams).2 = 0 := by
  induction beams generalizing s with
  | nil => rfl
  | cons g beams ih =>
    have hcall : sliceLoad (mac.dlSlicePolicy.entry i).nssai
        (nrDlSlicePrbPolicy env params s g).cands = 0 := by
      rcases hzero g List.mem_cons_self with hcap | hnone
      · have hle := nrDlSlicePrbPolicy_load_le env params h (hfresh g List.mem_cons_self)
        omega
      · exact nrDlSlicePrbPolicy_load_eq_zero env params h (hfresh g List.mem_cons_self) hnone
    rw [allocBeams, sliceLoad_append, hcall, ih (h.next env params g)
      (fun x hx => hfresh x (List.mem_cons_of_mem g hx))
      (fun x hx => hzero x (List.mem_cons_of_mem g hx))]

/-- A slice with candidates on one beam at most stays within its cap. -/
theorem allocBeams_load_le {beams : List (List DlCandidate)} (h : Enforces mac i s)
    (hfresh : ∀ g ∈ beams, Fresh g)
    (hone : beams.Pairwise fun g g' =>
      ∀ c ∈ g, ∀ c' ∈ g', c.Eligible (mac.dlSlicePolicy.entry i).nssai →
        ¬ c'.Eligible (mac.dlSlicePolicy.entry i).nssai) :
    sliceLoad (mac.dlSlicePolicy.entry i).nssai (allocBeams env params s beams).2 ≤
      grantable (sliceCap params (mac.dlSlicePolicy.entry i).dedicatedPrbRatio) := by
  induction beams generalizing s with
  | nil => exact Nat.zero_le _
  | cons g beams ih =>
    obtain ⟨hhead, htail⟩ := List.pairwise_cons.mp hone
    have hfresh' : ∀ x ∈ beams, Fresh x := fun x hx => hfresh x (List.mem_cons_of_mem g hx)
    rw [allocBeams, sliceLoad_append]
    by_cases hnone : ∀ c ∈ g, ¬ c.Eligible (mac.dlSlicePolicy.entry i).nssai
    · rw [nrDlSlicePrbPolicy_load_eq_zero env params h (hfresh g List.mem_cons_self) hnone,
        Nat.zero_add]
      exact ih (h.next env params g) hfresh' htail
    · -- this beam has the slice's candidates, so the later ones have none
      push Not at hnone
      obtain ⟨c, hc, helig⟩ := hnone
      rw [allocBeams_load_eq_zero env params (h.next env params g) hfresh'
        fun g' hg' => .inr fun c' hc' => hhead g' hg' c hc c' hc' helig]
      exact nrDlSlicePrbPolicy_load_le env params h (hfresh g List.mem_cons_self)

/-! ### Crowded beams

A candidate with a large buffer, a wide bandwidth part and a successful validation takes the whole
budget of its pass when its beam is free. -/

/-- The candidate can take `cap` resource blocks of a free beam out of the budget, whatever its
allocation so far. -/
def Crowds (budget cap : ℕ) (c : DlCandidate) : Prop :=
  ∀ c' : DlCandidate, c'.identity = c.identity →
    min c'.bwpSize budget = cap ∧ (∀ nbRb, env.tbsBytes c' nbRb < c'.bytesToSend) ∧
      ∀ k, (env.nrDlValidateCcePucch k c').isSome = true

/-- Every candidate of the slice can take `cap` resource blocks of beam `b`. -/
def Crowded (n : Nssai) (budget cap b : ℕ) (order : List DlCandidate) : Prop :=
  ∀ c ∈ order, c.OfSlice n → Crowds env budget cap c ∧ c.allocBeamIdx = b

variable {env} in
theorem Crowded.advance {n : Nssai} {budget cap b : ℕ} {serves : DlCandidate → Prop}
    {s s' : SlotState} {order order' : List DlCandidate} (h : Crowded env n budget cap b order)
    (hadv : Advances serves s order s' order') : Crowded env n budget cap b order' := by
  intro c' hmem hslice
  obtain ⟨c, hc, hid⟩ := hadv.exists_of_mem hmem
  obtain ⟨hcrowds, hbeam⟩ := h c hc ((ofSlice_congr hid).mp hslice)
  have hbeam' : c'.identity.allocBeamIdx = c.identity.allocBeamIdx :=
    congrArg DlCandidate.allocBeamIdx hid
  exact ⟨fun x hx => hcrowds x (hx.trans hid), hbeam'.trans hbeam⟩

theorem getLimitedFreeBlock_of_free {vrbMap : ℕ → VrbMap} {c : DlCandidate} {budget : ℕ}
    (hfree : vrbMap c.allocBeamIdx = fun _ => 0) (hpos : 0 < budget) :
    getLimitedFreeBlock vrbMap c budget = (min c.bwpSize budget, 0) := by
  have hblock : findLargestFreeBlock (vrbMap c.allocBeamIdx) c.allocSlbitmap c.bwpStart c.bwpSize =
      (c.bwpSize, 0) :=
    findLargestFreeBlock_of_free fun rb _ => by simp [hfree, VrbMap.isFree]
  simp [getLimitedFreeBlock, hblock, hpos]

/-- On a free beam, the first candidate that the new-data pass serves takes what its bandwidth part
and the budget allow. -/
theorem allocNewtxPf_load_ge {budget cap b : ℕ} (hcap : minRbSize ≤ cap) (hle : cap ≤ budget)
    (s : SlotState) (hfree : s.vrbMap b = fun _ => 0) (order : List DlCandidate)
    (hcrowd : Crowded env (s.mac.dlSlicePolicy.entry i).nssai budget cap b order)
    {x : DlCandidate} (hx : x ∈ order) (hserves : newtxServes s.mac (some i) x = true) :
    cap ≤ sliceLoad (s.mac.dlSlicePolicy.entry i).nssai
      (allocNewtxPf env params (some i) budget 0 s order).order := by
  have hpos : 0 < budget := ((Nat.succ_pos 4).trans_le hcap).trans_le hle
  induction order with
  | nil => exact absurd hx List.not_mem_nil
  | cons c order ih =>
    by_cases hc : newtxServes s.mac (some i) c = true
    · -- the first served candidate
      obtain ⟨-, hnew, hnssai⟩ := (newtxServes_iff (some i)).mp hc
      obtain ⟨hcrowds, rfl⟩ := hcrowd c List.mem_cons_self ⟨hnew, hnssai⟩
      obtain ⟨hshare, hdemand, -⟩ := hcrowds c rfl
      have hblock := getLimitedFreeBlock_of_free hfree hpos
      rw [hshare] at hblock
      obtain ⟨order', horder⟩ := allocNewtxPf_cons_served env params (some i) budget 0 order
        hpos hc (hcap.trans hle) (by rw [Nat.sub_zero, hblock]; exact hcap)
      rw [Nat.sub_zero, hblock] at horder
      have hsize : newtxRbSize env c cap = cap := nrFindNbRb_of_lt (hdemand cap)
      obtain ⟨pdcch, hvalid⟩ := Option.isSome_iff_exists.mp
        ((hcrowds (c.allocate 0 cap c.schedPdsch.mcs) rfl).2.2 s.validations)
      rw [horder, hsize, commitAllocOrStop_of_some hvalid, sliceLoad_cons]
      refine (le_of_eq ?_).trans (Nat.le_add_right _ _)
      exact (if_pos ⟨rfl, hnew, hnssai⟩).symm
    · have hskip : (!newtxServes s.mac (some i) c) = true := by simpa using hc
      have hx' : x ∈ order := by
        rcases List.mem_cons.mp hx with rfl | htail
        · exact absurd hserves hc
        · exact htail
      rw [allocNewtxPf, if_pos hskip, Pass.after_order, sliceLoad_cons]
      have hrest := ih (fun y hy => hcrowd y (List.mem_cons_of_mem c hy)) hx'
      omega

/-- A beam is free, only the new data of the slice can take it, and some of it waits. -/
structure Poised (n : Nssai) (budget cap b : ℕ) (s : SlotState) (order : List DlCandidate) :
    Prop where
  free : s.vrbMap b = fun _ => 0
  crowded : Crowded env n budget cap b order
  only : Quiet env (fun c => ¬ c.OfSlice n) b order
  waiting : ∃ c ∈ order, c.OfSlice n ∧ c.scheduled = false

variable {env} in
theorem Poised.cap_le {n : Nssai} {budget cap b : ℕ} {s : SlotState} {order : List DlCandidate}
    (h : Poised env n budget cap b s order) : cap ≤ budget := by
  obtain ⟨x, hx, hslice, -⟩ := h.waiting
  exact ((h.crowded x hx hslice).1 x rfl).1.ge.trans (min_le_right _ _)

variable {env} in
/-- A pass for other candidates leaves the beam to the slice. -/
theorem Poised.advance {n : Nssai} {budget cap b : ℕ} {serves : DlCandidate → Prop}
    {s s' : SlotState} {order order' : List DlCandidate} (h : Poised env n budget cap b s order)
    (hadv : Advances serves s order s' order') (hnot : ∀ c, serves c → ¬ c.OfSlice n)
    (hvrb : s'.vrbMap b = s.vrbMap b) : Poised env n budget cap b s' order' := by
  obtain ⟨x, hx, hslice, hun⟩ := h.waiting
  have hx' : x ∈ order' := hadv.mem_of_not_serves hx fun hserves => hnot x hserves hslice
  exact ⟨hvrb.trans h.free, h.crowded.advance hadv, h.only.advance hadv, x, hx', hslice, hun⟩

/-- The loop over the policies gives the first candidate of a slice on a beam that is left to the
slice all it can take. -/
theorem allocSlices_load_ge {budget cap b : ℕ} (hcap : minRbSize ≤ cap) (hown : mac.OwnsSlice i)
    (hbudget : totalBudget params (mac.dlSlicePolicy.entry i).dedicatedPrbRatio = budget)
    (remaining k : ℕ) (s : SlotState) (htable : SameTable mac s.mac) (hki : k ≤ i)
    (hik : i < k + remaining) (hcount : k + remaining ≤ mac.dlSlicePolicyCount)
    (order : List DlCandidate)
    (h : Poised env (mac.dlSlicePolicy.entry i).nssai budget cap b s order) :
    cap ≤ sliceLoad (mac.dlSlicePolicy.entry i).nssai
      (allocSlices env params remaining k s order).2 := by
  induction remaining generalizing k s order with
  | zero => omega
  | succ remaining ih =>
    have hpos : 0 < budget := ((Nat.succ_pos 4).trans_le hcap).trans_le h.cap_le
    rcases allocSlices_succ env params remaining k s order with
      ⟨hskip, heq⟩ | ⟨⟨hactive, -⟩, heq⟩
    · -- the entry of the slice has a budget, so this is an earlier one
      have hne : k ≠ i := by
        rintro rfl
        rw [htable.policy, hbudget] at hskip
        exact hskip ⟨hown.active, hpos⟩
      rw [heq]
      exact ih (k + 1) s htable (by omega) (by omega) (by omega) order h
    · have hadv := allocNewtxPf_advances env params (some k)
        (totalBudget params (s.mac.dlSlicePolicy.entry k).dedicatedPrbRatio) 0 s order htable
      rw [heq]
      by_cases hki' : k = i
      · -- the slice's own pass hands the cap to the first waiting candidate; later passes keep it
        subst hki'
        obtain ⟨x, hx, hslice, hun⟩ := h.waiting
        have hserves : newtxServes s.mac (some k) x = true := by
          rw [htable.newtxServes_eq]
          exact (newtxServes_iff (some k)).mpr ⟨hun, hslice⟩
        have hge := allocNewtxPf_load_ge env params (i := k) hcap h.cap_le s h.free order
          (by rw [htable.policy]; exact h.crowded) hx hserves
        rw [htable.policy] at hge ⊢
        rw [hbudget]
        exact hge.trans (allocSlices_advances env params _ _ _ _).load_le
      · -- an earlier pass serves other slices, whose candidates fail on this beam
        rw [htable.policy] at hactive
        have hnot := hown.not_ofSlice_of_ne (by omega) hactive hki'
        refine ih (k + 1) _ (htable.trans hadv.table) (by omega) (by omega) (by omega) _
          (h.advance hadv hnot ?_)
        exact allocNewtxPf_vrbMap env params _ _ 0 s order htable hnot h.only

theorem slicePasses_load_ge {budget cap b : ℕ} (hcap : minRbSize ≤ cap) (h : Enforces mac i s)
    (hbudget : totalBudget params (mac.dlSlicePolicy.entry i).dedicatedPrbRatio = budget)
    (order : List DlCandidate)
    (hpoised : Poised env (mac.dlSlicePolicy.entry i).nssai budget cap b s order) :
    cap ≤ sliceLoad (mac.dlSlicePolicy.entry i).nssai (slicePasses env params s order).order := by
  have hearly := earlyPass_advances env params s order
  have hnot : ∀ c : DlCandidate, c.newData = false →
      ¬ c.OfSlice (mac.dlSlicePolicy.entry i).nssai :=
    fun c hc hslice => Bool.false_ne_true (hc.symm.trans hslice.1)
  have hvrb : (earlyPass env params s order).state.vrbMap b = s.vrbMap b :=
    allocRetxAndNoDataPf_vrbMap env params { s with nScheduled := 0 } order hnot hpoised.only
  have hcount := h.table.count
  have hlt := h.owns.lt_count
  refine (allocSlices_load_ge env params hcap h.owns hbudget s.mac.dlSlicePolicyCount 0 _
    (h.table.trans hearly.table) (Nat.zero_le i) (by omega) (by omega) _
    (hpoised.advance hearly hnot hvrb)).trans ?_
  exact (allocNewtxPf_advances env params none 0 0 _ _ (.refl _)).load_le

theorem allocSlices_vrbMap {b : ℕ} (remaining k : ℕ) (s : SlotState) (order : List DlCandidate)
    (h : Quiet env (fun _ => True) b order) :
    (allocSlices env params remaining k s order).1.vrbMap b = s.vrbMap b := by
  induction remaining generalizing k s order with
  | zero => rfl
  | succ remaining ih =>
    rcases allocSlices_succ env params remaining k s order with ⟨-, heq⟩ | ⟨-, heq⟩
    · rw [heq]
      exact ih (k + 1) s order h
    · have hadv := allocNewtxPf_advances env params (some k)
        (totalBudget params (s.mac.dlSlicePolicy.entry k).dedicatedPrbRatio) 0 s order
        (.refl s.mac)
      rw [heq, ih _ _ _ (h.advance hadv)]
      exact allocNewtxPf_vrbMap env params _ _ 0 s order (.refl s.mac) (fun _ _ => trivial) h

/-- A policy call takes nothing on beams that none of its candidates is on. -/
theorem nrDlSlicePrbPolicy_vrbMap {b : ℕ} (h : Enforces mac i s)
    (hb : ∀ c ∈ cands, c.allocBeamIdx ≠ b) :
    (nrDlSlicePrbPolicy env params s cands).state.vrbMap b = s.vrbMap b := by
  have hquiet : Quiet env (fun _ => True) b (buildPfOrder env cands) := fun c hc hbeam _ =>
    absurd hbeam (hb c ((mem_buildPfOrder env).mp hc).1)
  have hearly := hquiet.advance (earlyPass_advances env params s (buildPfOrder env cands))
  have hpolicy := hquiet.advance (policyPasses_advances env params s (buildPfOrder env cands))
  rw [h.call_eq]
  calc (slicePasses env params s (buildPfOrder env cands)).state.vrbMap b
      = (policyPasses env params s (buildPfOrder env cands)).1.vrbMap b :=
        allocNewtxPf_vrbMap env params none 0 0 _ _ (.refl _) (fun _ _ => trivial) hpolicy
    _ = (earlyPass env params s (buildPfOrder env cands)).state.vrbMap b :=
        allocSlices_vrbMap env params _ _ _ _ hearly
    _ = s.vrbMap b :=
        allocRetxAndNoDataPf_vrbMap env params { s with nScheduled := 0 } _ (fun _ _ => trivial)
          hquiet

/-! ### Crowded slots -/

/-- In every call of the slot, the candidates of the slice can take the share of their beam, and no
other candidate passes its validation. -/
structure CrowdedSlot (n : Nssai) (budget : ℕ) (share : ℕ → ℕ) (beams : List (List DlCandidate)) :
    Prop where
  crowds : ∀ g ∈ beams, ∀ c ∈ g, c.OfSlice n → Crowds env budget (share c.allocBeamIdx) c
  silent : ∀ g ∈ beams, ∀ c ∈ g, ¬ c.OfSlice n → env.Silences c
  fresh : ∀ g ∈ beams, Fresh g
  sameBeam : ∀ g ∈ beams, ∀ c ∈ g, ∀ c' ∈ g, SameBeam c c'
  apart : beams.Pairwise fun g g' => ∀ c ∈ g, ∀ c' ∈ g', ¬ SameBeam c c'

def FreeBeams (s : SlotState) (beams : List (List DlCandidate)) : Prop :=
  ∀ g ∈ beams, ∀ c ∈ g, s.vrbMap c.allocBeamIdx = fun _ => 0

variable {env} in
theorem CrowdedSlot.tail {n : Nssai} {budget : ℕ} {share : ℕ → ℕ} {g : List DlCandidate}
    {beams : List (List DlCandidate)} (h : CrowdedSlot env n budget share (g :: beams)) :
    CrowdedSlot env n budget share beams where
  crowds g' hg' := h.crowds g' (List.mem_cons_of_mem g hg')
  silent g' hg' := h.silent g' (List.mem_cons_of_mem g hg')
  fresh g' hg' := h.fresh g' (List.mem_cons_of_mem g hg')
  sameBeam g' hg' := h.sameBeam g' (List.mem_cons_of_mem g hg')
  apart := (List.pairwise_cons.mp h.apart).2

variable {env} in
theorem CrowdedSlot.poised {n : Nssai} {budget : ℕ} {share : ℕ → ℕ} {g : List DlCandidate}
    {beams : List (List DlCandidate)} (h : CrowdedSlot env n budget share (g :: beams))
    (hfree : FreeBeams s (g :: beams)) {x : DlCandidate} (hx : x ∈ g) (helig : x.Eligible n) :
    Poised env n budget (share x.allocBeamIdx) x.allocBeamIdx s (buildPfOrder env g) where
  free := hfree g List.mem_cons_self x hx
  crowded c hc hslice :=
    have hmem : c ∈ g := ((mem_buildPfOrder env).mp hc).1
    have hbeam : c.allocBeamIdx = x.allocBeamIdx :=
      h.sameBeam g List.mem_cons_self c hmem x hx
    ⟨hbeam ▸ h.crowds g List.mem_cons_self c hmem hslice, hbeam⟩
  only c hc _ hother :=
    h.silent g List.mem_cons_self c ((mem_buildPfOrder env).mp hc).1 hother
  waiting :=
    ⟨x, (mem_buildPfOrder env).mpr ⟨hx, helig.2⟩, helig.1,
      h.fresh g List.mem_cons_self x hx helig.1.1⟩

/-- A policy call on a beam that is left to the slice gives it all that a candidate can take. -/
theorem nrDlSlicePrbPolicy_load_ge {budget cap b : ℕ} (hcap : minRbSize ≤ cap)
    (h : Enforces mac i s)
    (hbudget : totalBudget params (mac.dlSlicePolicy.entry i).dedicatedPrbRatio = budget)
    (hpoised : Poised env (mac.dlSlicePolicy.entry i).nssai budget cap b s
      (buildPfOrder env cands)) :
    cap ≤ sliceLoad (mac.dlSlicePolicy.entry i).nssai
      (nrDlSlicePrbPolicy env params s cands).cands := by
  rw [h.call_eq, Pass.finish, sliceLoad_append]
  exact (slicePasses_load_ge env params hcap h hbudget _ hpoised).trans (Nat.le_add_right _ _)

/-- The beams of the groups that have a candidate of the slice. -/
def eligibleBeams (n : Nssai) (beams : List (List DlCandidate)) : List ℕ :=
  beams.filterMap fun g =>
    (g.find? fun c => decide (c.Eligible n)).map DlCandidate.allocBeamIdx

theorem eligibleBeams_cons_of_none {n : Nssai} {g : List DlCandidate}
    {beams : List (List DlCandidate)} (h : ∀ c ∈ g, ¬ c.Eligible n) :
    eligibleBeams n (g :: beams) = eligibleBeams n beams := by
  have hfind : (g.find? fun c => decide (c.Eligible n)) = none :=
    List.find?_eq_none.mpr fun c hc helig => h c hc (of_decide_eq_true helig)
  rw [eligibleBeams, List.filterMap_cons_none (by rw [hfind]; rfl)]
  rfl

theorem eligibleBeams_cons_of_some {n : Nssai} {g : List DlCandidate}
    {beams : List (List DlCandidate)} {c : DlCandidate}
    (h : (g.find? fun c => decide (c.Eligible n)) = some c) :
    eligibleBeams n (g :: beams) = c.allocBeamIdx :: eligibleBeams n beams := by
  rw [eligibleBeams, List.filterMap_cons_some (b := c.allocBeamIdx) (by rw [h]; rfl)]
  rfl

/-- In a crowded slot the slice gets its share of every beam it has a candidate on. -/
theorem allocBeams_load_ge {budget : ℕ} {share : ℕ → ℕ} (h : Enforces mac i s)
    (hbudget : totalBudget params (mac.dlSlicePolicy.entry i).dedicatedPrbRatio = budget)
    {beams : List (List DlCandidate)}
    (hslot : CrowdedSlot env (mac.dlSlicePolicy.entry i).nssai budget share beams)
    (hfree : FreeBeams s beams) :
    ((eligibleBeams (mac.dlSlicePolicy.entry i).nssai beams).map
        fun b => grantable (share b)).sum ≤
      sliceLoad (mac.dlSlicePolicy.entry i).nssai (allocBeams env params s beams).2 := by
  induction beams generalizing s with
  | nil => exact Nat.le_refl 0
  | cons g beams ih =>
    -- the call for this beam leaves the other beams free
    have hrest : FreeBeams (nrDlSlicePrbPolicy env params s g).state beams := by
      intro g' hg' c' hc'
      rw [nrDlSlicePrbPolicy_vrbMap env params h fun c hc =>
        (List.pairwise_cons.mp hslot.apart).1 g' hg' c hc c' hc']
      exact hfree g' (List.mem_cons_of_mem g hg') c' hc'
    have htail := ih (h.next env params g) hslot.tail hrest
    rw [allocBeams, sliceLoad_append]
    cases hfind : g.find? fun c => decide (c.Eligible (mac.dlSlicePolicy.entry i).nssai) with
    | none =>
      have hnone := List.find?_eq_none.mp hfind
      rw [eligibleBeams_cons_of_none fun c hc helig => hnone c hc (decide_eq_true helig)]
      omega
    | some x =>
      have helig : x.Eligible (mac.dlSlicePolicy.entry i).nssai := by
        have hfound := List.find?_some hfind
        exact of_decide_eq_true hfound
      rw [eligibleBeams_cons_of_some hfind, List.map_cons, List.sum_cons]
      refine Nat.add_le_add ?_ htail
      unfold grantable
      split_ifs with hsmall
      · exact Nat.zero_le _
      · exact nrDlSlicePrbPolicy_load_ge env params (Nat.le_of_not_lt hsmall) h hbudget
          (hslot.poised hfree (List.mem_of_find?_eq_some hfind) helig)

end Policy

/-! ### The cap of a slot -/

/-- The beam and the slice of a candidate, and whether it takes part with new data. -/
structure Placement where
  allocBeamIdx : ℕ
  nssai : Nssai
  newData : Bool
  skipped : Bool
  deriving DecidableEq

/-- Where a candidate stands before the policy calls. -/
def DlCandidate.placement (c : DlCandidate) : Placement :=
  ⟨c.allocBeamIdx, c.nssai, c.newData, c.skipped⟩

/-- A slot keeps the slice of table entry `i` within its cap, for every initial VRB map, every
outcome of the CCE/PUCCH validations and every order the sorts can leave. -/
def SliceCapped (nrComputeTbs : DlCandidate → ℕ → BitVec 32) (params : DlSchedParams)
    (mac : SliceState) (i : ℕ) (cands : List DlCandidate) : Prop :=
  ∀ (env : SlotEnv) (vrbMap : ℕ → VrbMap), env.nrComputeTbs = nrComputeTbs →
    sliceLoad (mac.dlSlicePolicy.entry i).nssai (nrDlSchedule env params mac vrbMap cands).2 ≤
      sliceCap params (mac.dlSlicePolicy.entry i).dedicatedPrbRatio

/-- The entries in use belong to different slices. -/
def SliceState.DistinctSlices (mac : SliceState) : Prop :=
  ∀ j < mac.dlSlicePolicyCount, ∀ k < mac.dlSlicePolicyCount,
    (mac.dlSlicePolicy.entry j).active = true → (mac.dlSlicePolicy.entry k).active = true →
    (mac.dlSlicePolicy.entry j).nssai = (mac.dlSlicePolicy.entry k).nssai → j = k

section Slot

variable {nrComputeTbs : DlCandidate → ℕ → BitVec 32} {params : DlSchedParams} {mac : SliceState}
  {i : ℕ}

theorem SliceState.DistinctSlices.ownsSlice (h : mac.DistinctSlices)
    (hi : i < mac.dlSlicePolicyCount) (hactive : (mac.dlSlicePolicy.entry i).active = true) :
    mac.OwnsSlice i :=
  ⟨hi, hactive, fun j hj hj_active hnssai => h j hj i hi hj_active hactive hnssai⟩

theorem mem_beamGroups_beamSort {env : SlotEnv} {cands g : List DlCandidate} {c : DlCandidate}
    (hg : g ∈ beamGroups (env.beamSort cands)) (hc : c ∈ g) : c ∈ cands := by
  have hflat : (beamGroups (env.beamSort cands)).flatten = env.beamSort cands :=
    List.flatten_splitBy _ _
  refine (env.beamSort_perm cands).mem_iff.mp ?_
  rw [← hflat]
  exact List.mem_flatten_of_mem hg hc

theorem exists_beamGroup (env : SlotEnv) {cands : List DlCandidate} {c : DlCandidate}
    (hc : c ∈ cands) : ∃ g ∈ beamGroups (env.beamSort cands), c ∈ g := by
  have hflat : (beamGroups (env.beamSort cands)).flatten = env.beamSort cands :=
    List.flatten_splitBy _ _
  have hmem : c ∈ (beamGroups (env.beamSort cands)).flatten := by
    rw [hflat]
    exact (env.beamSort_perm cands).mem_iff.mpr hc
  exact List.mem_flatten.mp hmem

theorem grantable_le (rest : ℕ) : grantable rest ≤ rest := by
  unfold grantable
  split_ifs
  · exact Nat.zero_le _
  · exact le_rfl

/-- A slice whose cap is below the smallest allocation, or whose candidates share a beam, is kept
within its cap. -/
theorem sliceCapped_of_oneBeam (hown : mac.OwnsSlice i) (hen : mac.dlSlicePolicyEnabled = true)
    {cands : List DlCandidate} (hfresh : Fresh cands)
    (hone : sliceCap params (mac.dlSlicePolicy.entry i).dedicatedPrbRatio < minRbSize ∨
      ∀ c ∈ cands, ∀ c' ∈ cands, c.Eligible (mac.dlSlicePolicy.entry i).nssai →
        c'.Eligible (mac.dlSlicePolicy.entry i).nssai → SameBeam c c') :
    SliceCapped nrComputeTbs params mac i cands := by
  intro env vrbMap _
  have henf : Enforces mac i ⟨mac, vrbMap, 0, 0⟩ := ⟨hown, .refl mac, hen⟩
  have hgroups : ∀ g ∈ beamGroups (env.beamSort cands), Fresh g :=
    fun g hg c hc => hfresh c (mem_beamGroups_beamSort hg hc)
  rcases hone with hsmall | hbeam
  · have hzero := allocBeams_load_eq_zero env params henf hgroups fun g _ => .inl (if_pos hsmall)
    exact hzero.le.trans (Nat.zero_le _)
  · refine (allocBeams_load_le env params henf hgroups ?_).trans (grantable_le _)
    refine List.Pairwise.imp_of_mem ?_ (beamGroups_pairwise (env.beamSort_pairwise cands))
    intro g g' hg hg' hapart c hc c' hc' helig helig'
    exact hapart c hc c' hc' (hbeam c (mem_beamGroups_beamSort hg hc) c'
      (mem_beamGroups_beamSort hg' hc') helig helig')

/-! ### When the cap is exceeded -/

/-- An environment in which exactly the new data of a slice passes its validation. -/
def crowdedEnv (nrComputeTbs : DlCandidate → ℕ → BitVec 32) (n : Nssai) : SlotEnv where
  nrComputeTbs := nrComputeTbs
  nrDlValidateCcePucch := fun _ c => if c.OfSlice n then some fun _ => 0 else none
  pfSort := id
  pfSort_perm := fun _ => .rfl
  beamSort := List.insertionSort fun c c' => c.allocBeamIdx ≤ c'.allocBeamIdx
  beamSort_perm := List.perm_insertionSort _
  beamSort_pairwise := fun cands => by
    have : Std.Total fun c c' : DlCandidate => c.allocBeamIdx ≤ c'.allocBeamIdx :=
      ⟨fun c c' => Nat.le_total c.allocBeamIdx c'.allocBeamIdx⟩
    have : IsTrans DlCandidate fun c c' => c.allocBeamIdx ≤ c'.allocBeamIdx :=
      ⟨fun _ _ _ => Nat.le_trans⟩
    exact List.pairwise_insertionSort _ cands

/-- A candidate at a placement with a large buffer and all resource blocks of its beam as its
bandwidth part. -/
def Placement.crowded (nRbAvail : ℕ → ℕ) (p : Placement) : DlCandidate where
  rnti := 0
  isRetx := !p.newData
  retxRbSize := 0
  pendingBytes := 0x20000000
  taApply := false
  bwpStart := 0
  bwpSize := nRbAvail p.allocBeamIdx
  nssai := p.nssai
  skipped := p.skipped
  scheduled := false
  schedPdsch := ⟨0, 0, 0⟩
  allocSlbitmap := 1
  allocBeamIdx := p.allocBeamIdx

theorem Placement.placement_crowded (nRbAvail : ℕ → ℕ) (p : Placement) :
    (p.crowded nRbAvail).placement = p := by
  cases p
  simp [Placement.crowded, DlCandidate.placement, DlCandidate.newData]

/-- No transport block holds the buffer of a crowded candidate. -/
theorem Placement.crowds_crowded (nrComputeTbs : DlCandidate → ℕ → BitVec 32) {n : Nssai}
    (nRbAvail : ℕ → ℕ) (budget : ℕ) {p : Placement} (h : (p.crowded nRbAvail).OfSlice n) :
    Crowds (crowdedEnv nrComputeTbs n) budget (min (nRbAvail p.allocBeamIdx) budget)
      (p.crowded nRbAvail) := by
  intro c hid
  have hbwp : c.identity.bwpSize = nRbAvail p.allocBeamIdx := congrArg DlCandidate.bwpSize hid
  have hbytes : c.identity.bytesToSend = (p.crowded nRbAvail).identity.bytesToSend :=
    congrArg DlCandidate.bytesToSend hid
  refine ⟨congrArg (min · budget) hbwp, fun nbRb => ?_, fun k => ?_⟩
  · -- a 32-bit count of bits is less than 2 ^ 29 bytes
    have htbs : (crowdedEnv nrComputeTbs n).tbsBytes c nbRb < 2 ^ 29 := by
      unfold SlotEnv.tbsBytes
      rw [BitVec.toNat_ushiftRight, Nat.shiftRight_eq_div_pow]
      have hlt := ((crowdedEnv nrComputeTbs n).nrComputeTbs c nbRb).isLt
      omega
    have hbuffer : 2 ^ 29 < c.bytesToSend := by
      change 2 ^ 29 < c.identity.bytesToSend
      have hlarge : (p.crowded nRbAvail).identity.bytesToSend = 0x2000000c := rfl
      rw [hbytes, hlarge]
      omega
    exact htbs.trans hbuffer
  · have hslice : c.OfSlice n := (ofSlice_congr hid).mpr h
    simp [crowdedEnv, hslice]

theorem silences_crowdedEnv (nrComputeTbs : DlCandidate → ℕ → BitVec 32) {n : Nssai}
    {c : DlCandidate} (h : ¬ c.OfSlice n) : (crowdedEnv nrComputeTbs n).Silences c := by
  intro c' hid k
  have hother : ¬ c'.OfSlice n := fun hslice => h ((ofSlice_congr hid).mp hslice)
  simp [crowdedEnv, hother]

theorem crowdedSlot_crowded (nrComputeTbs : DlCandidate → ℕ → BitVec 32) (n : Nssai)
    (nRbAvail : ℕ → ℕ) (budget : ℕ) (places : List Placement) :
    CrowdedSlot (crowdedEnv nrComputeTbs n) n budget (fun b => min (nRbAvail b) budget)
      (beamGroups ((crowdedEnv nrComputeTbs n).beamSort
        (places.map (Placement.crowded nRbAvail)))) where
  crowds g hg c hc hslice := by
    obtain ⟨p, -, rfl⟩ := List.mem_map.mp (mem_beamGroups_beamSort hg hc)
    exact Placement.crowds_crowded nrComputeTbs nRbAvail budget hslice
  silent g hg c hc hother := silences_crowdedEnv nrComputeTbs hother
  fresh g hg c hc _ := by
    obtain ⟨p, -, rfl⟩ := List.mem_map.mp (mem_beamGroups_beamSort hg hc)
    rfl
  sameBeam g hg c hc c' hc' := sameBeam_of_mem_beamGroups hg hc hc'
  apart := beamGroups_pairwise ((crowdedEnv nrComputeTbs n).beamSort_pairwise _)

end Slot

/-- A cell with 25 resource blocks on each of two beams. -/
def twoBeams : DlSchedParams where
  frame := 0
  slot := 1
  numBeams := 2
  maxNumUe := 1
  nRbAvail := fun _ => 25

/-- A UE of the 40 % slice with 10 kB in its buffer. -/
def loadedUe (rnti beam : ℕ) : DlCandidate where
  rnti := rnti
  isRetx := false
  retxRbSize := 0
  pendingBytes := 10000
  taApply := false
  bwpStart := 0
  bwpSize := 25
  nssai := ⟨1, 1⟩
  skipped := false
  scheduled := false
  schedPdsch := ⟨0, 0, 9⟩
  allocSlbitmap := 0x3ffc
  allocBeamIdx := beam

/-- 200 bits for each resource block. -/
def flatTbs : DlCandidate → ℕ → BitVec 32 := fun _ nbRb => BitVec.ofNat 32 (200 * nbRb)

theorem oneSlice_switchConsistent : SliceState.oneSlice.SwitchConsistent := by
  simp [SliceState.SwitchConsistent, SliceState.oneSlice]

theorem oneSlice_distinctSlices : SliceState.oneSlice.DistinctSlices := by
  intro j hj k hk _ _ _
  have hcount : SliceState.oneSlice.dlSlicePolicyCount = 1 := rfl
  omega

end LlmHric.Mac
