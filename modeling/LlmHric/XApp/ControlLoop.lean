import LlmHric.Flexric.ControlProcedure
import LlmHric.XApp.SlicePolicyFile
import LlmHric.Mac.SliceCap

/-! The xApp is handed one policy file after the other, and the gNB schedules slots in between. A
file that loads goes to the gNB as a control message; the gNB acknowledges it in any case, and
replaces its table unless it refuses the message. From the policy files to the resource blocks of a
slot the loop is followed here as one system. -/

namespace LlmHric.XApp

open Checked Flexric Mac E2smRc

/-- What a downlink slot is scheduled from. -/
structure LoopSlot where
  env : SlotEnv
  params : DlSchedParams
  vrbMap : ℕ → VrbMap
  cands : List DlCandidate

/-- A policy file that the xApp is handed, or a slot of the gNB. -/
inductive LoopEvent where
  | policyFile (file : List UInt8)
  | slot (slot : LoopSlot)

/-- The answer to a policy file, or the candidates of a slot. -/
inductive LoopOut where
  | answered (success : Bool)
  | scheduled (cands : List DlCandidate)

/-- One round of `serve_requests` and `send_slice_controls` with one gNB, or one slot. The xApp
takes any answer of the gNB for a success. -/
def loopStep (mac : SliceState) : LoopEvent → Outcome (LoopOut × SliceState)
  | .policyFile file =>
    match loadPolicyFile file with
    | none => .done (.answered false, mac)
    | some policies => do
      let answer ← handleControlRequestAgent (some mac) (genRcSliceCtrl policies)
      .done (.answered true, answer.2.2.getD mac)
  | .slot slot =>
    let next := nrDlSchedule slot.env slot.params mac slot.vrbMap slot.cands
    .done (.scheduled next.2, next.1.mac)

/-- What comes out of some events, and the state of the gNB behind them. -/
def loopRun : SliceState → List LoopEvent → Outcome (List LoopOut × SliceState)
  | mac, [] => .done ([], mac)
  | mac, event :: events => do
    let next ← loopStep mac event
    let last ← loopRun next.2 events
    .done (next.1 :: last.1, last.2)

/-- The policies of a file that the xApp and the gNB accept. -/
def acceptedPolicies (file : List UInt8) : Option (List SlicePolicyCfg) :=
  (loadPolicyFile file).filter fun policies => policies.length ≤ maxNumSlices

/-- The policies of the last file that the xApp and the gNB accepted. -/
def inForce : List SlicePolicyCfg → List LoopEvent → List SlicePolicyCfg
  | current, [] => current
  | current, .policyFile file :: events => inForce ((acceptedPolicies file).getD current) events
  | current, .slot _ :: events => inForce current events

/-- The answer that a policy file gets: whether it loads. -/
def LoopEvent.answer? : LoopEvent → Option Bool
  | .policyFile file => some (loadPolicyFile file).isSome
  | .slot _ => none

/-- The answer in what comes out of an event. -/
def LoopOut.answer? : LoopOut → Option Bool
  | .answered success => some success
  | .scheduled _ => none

section Slot

variable (env : SlotEnv) (params : DlSchedParams)

/-- A policy call leaves the table and the switch alone. -/
theorem sameTable_nrDlSlicePrbPolicy (s : SlotState) (cands : List DlCandidate) :
    SameTable s.mac (nrDlSlicePrbPolicy env params s cands).state.mac := by
  -- without policies the code falls back to proportional fairness
  by_cases hoff : (!s.mac.dlSlicePolicyEnabled || s.mac.dlSlicePolicyCount == 0) = true
  · rw [nrDlSlicePrbPolicy, if_pos hoff]
    have hearly := allocRetxAndNoDataPf_advances env params { s with nScheduled := 0 }
      (buildPfOrder env cands)
    exact hearly.table.trans (allocNewtxPf_advances env params none 0 0 _ _ (.refl _)).table
  · rw [nrDlSlicePrbPolicy, if_neg hoff]
    exact (slicePasses_advances env params s (buildPfOrder env cands)).table

theorem sameTable_allocBeams (s : SlotState) (beams : List (List DlCandidate)) :
    SameTable s.mac (allocBeams env params s beams).1.mac := by
  induction beams generalizing s with
  | nil => exact .refl _
  | cons cands beams ih => exact (sameTable_nrDlSlicePrbPolicy env params s cands).trans (ih _)

end Slot

/-- The caps of some shares are those of their sum at most. -/
theorem sum_sliceCap_le_sliceCap_sum (params : DlSchedParams) (ratios : List ℕ) :
    (ratios.map (sliceCap params)).sum ≤ sliceCap params ratios.sum := by
  induction ratios with
  | nil => exact Nat.zero_le _
  | cons ratio ratios ih =>
    have hadd : sliceCap params ratio + sliceCap params ratios.sum ≤
        sliceCap params (ratio + ratios.sum) := by
      rw [sliceCap, sliceCap, sliceCap, ← Finset.sum_add_distrib]
      apply Finset.sum_le_sum
      intro b _
      -- each share is rounded down on its own
      rw [Nat.mul_add]
      exact Nat.div_add_div_le_add_div
    rw [List.map_cons, List.sum_cons, List.sum_cons]
    exact (Nat.add_le_add_left ih _).trans hadd

/-- Shares of at most 100 percent fit into the resource blocks of the beams. -/
theorem sum_sliceCap_le (params : DlSchedParams) {ratios : List ℕ} (h : ratios.sum ≤ 100) :
    (ratios.map (sliceCap params)).sum ≤ ∑ b ∈ Finset.range params.numBeams, params.nRbAvail b := by
  refine (sum_sliceCap_le_sliceCap_sum params ratios).trans (Finset.sum_le_sum ?_)
  intro b _
  exact Nat.div_le_of_le_mul (by rw [Nat.mul_comm 100]; exact Nat.mul_le_mul_left _ h)

/-- The dedicated shares of a file that loads are 100 percent at most. -/
theorem sum_dedicatedPrb_loadEntries {fuel : ℕ} {text : List UInt8}
    {policies loaded : List SlicePolicyCfg} {sum : ℤ}
    (h : loadEntries fuel text policies sum = some loaded)
    (hsum : (policies.map SlicePolicyCfg.dedicatedPrb).sum = sum) (hle : sum ≤ 100) :
    (loaded.map SlicePolicyCfg.dedicatedPrb).sum ≤ 100 := by
  induction fuel generalizing text policies sum with
  | zero => cases h
  | succ fuel ih =>
    rw [loadEntries] at h
    split at h
    · obtain rfl := Option.some.inj h
      exact hsum.trans_le hle
    · split at h
      · cases h
      · split at h
        · cases h
        · split_ifs at h with hvalid hover
          refine ih h ?_ (not_lt.mp hover)
          rw [List.map_append, List.sum_append, hsum, List.map_singleton, List.sum_singleton]

theorem sum_dedicatedPrb_loadPolicyFile {file : List UInt8} {policies : List SlicePolicyCfg}
    (h : loadPolicyFile file = some policies) :
    (policies.map SlicePolicyCfg.dedicatedPrb).sum ≤ 100 := by
  simp only [loadPolicyFile, Option.bind_eq_bind, Option.bind_eq_some_iff] at h
  obtain ⟨list, -, array, -, loaded, hloaded, h⟩ := h
  split_ifs at h
  obtain rfl := Option.some.inj h
  exact sum_dedicatedPrb_loadEntries hloaded rfl (by decide)

/-! ### The policies in force -/

/-- The gNB has exactly these policies in its table, which is on if there are any, and they share
out 100 percent at most. -/
structure InForce (policies : List SlicePolicyCfg) (mac : SliceState) : Prop where
  installed : InstalledAs mac policies
  switch : mac.SwitchConsistent
  ratios : (policies.map fun cfg => (policyOf cfg).dedicatedPrbRatio).sum ≤ 100

theorem entry_cleared (i : ℕ) : PolicyTable.cleared.entry i = .zeroed := by
  unfold PolicyTable.entry PolicyTable.cleared
  exact dite_eq_ite.trans (ite_self _)

theorem inForce_initial : InForce [] .initial where
  installed := ⟨rfl, fun i hi => absurd hi (Nat.not_lt_zero i),
    fun i _ => congrArg DlSlicePolicy.active (entry_cleared i)⟩
  switch := SliceState.switchConsistent_initial
  ratios := Nat.zero_le _

theorem sum_dedicatedPrbRatio {policies : List SlicePolicyCfg}
    (h : ∀ cfg ∈ policies, validatePolicy cfg = true) :
    ((policies.map fun cfg => (policyOf cfg).dedicatedPrbRatio).sum : ℤ) =
      (policies.map SlicePolicyCfg.dedicatedPrb).sum := by
  induction policies with
  | nil => rfl
  | cons cfg policies ih =>
    have hcfg := h cfg List.mem_cons_self
    -- the file has an `int`, the gNB an unsigned ratio
    have hpos : 0 ≤ cfg.dedicatedPrb := by
      simp only [validatePolicy, Bool.and_eq_true, decide_eq_true_eq] at hcfg
      omega
    rw [List.map_cons, List.map_cons, List.sum_cons, List.sum_cons, Nat.cast_add,
      ih fun c hc => h c (List.mem_cons_of_mem _ hc)]
    exact congrArg (· + _) (Int.toNat_of_nonneg hpos)

variable {policies : List SlicePolicyCfg} {mac : SliceState}

theorem switchConsistent_apply {msg : Option CtrlMsgFrmt1} {success : Bool} {after : SliceState}
    (h : mac.SwitchConsistent)
    (happly : applyRcCtrlStyle2SliceLevelPrbQuota (some mac) msg = .done (success, some after)) :
    after.SwitchConsistent := by
  rw [applyRcCtrlStyle2SliceLevelPrbQuota] at happly
  split at happly
  · cases happly
  · cases happly
    exact h
  · cases happly
    exact h.set _ _

/-- A policy file is answered with success if it loads, and comes into force if it has at most as
many policies as the gNB has entries. -/
theorem InForce.policyFile (h : InForce policies mac) (file : List UInt8) :
    ∃ mac', loopStep mac (.policyFile file) =
        .done (.answered (loadPolicyFile file).isSome, mac') ∧
      InForce ((acceptedPolicies file).getD policies) mac' := by
  cases hload : loadPolicyFile file with
  | none =>
    have haccepted : acceptedPolicies file = none := by rw [acceptedPolicies, hload]; rfl
    rw [haccepted]
    refine ⟨mac, ?_, h⟩
    simp only [loopStep, hload]
    rfl
  | some loaded =>
    have hvalid := loadPolicyFile_validated hload
    by_cases hlen : loaded.length ≤ maxNumSlices
    · have haccepted : acceptedPolicies file = some loaded := by
        rw [acceptedPolicies, hload, Option.filter_some, if_pos (decide_eq_true hlen)]
      obtain ⟨after, happly, hinstalled⟩ := apply_genRcSliceCtrl mac hvalid hlen
      rw [haccepted]
      refine ⟨after, ?_, hinstalled, ?_, ?_⟩
      · simp only [loopStep, hload, handleControlRequestAgent, happly]
        rfl
      · exact switchConsistent_apply h.switch happly
      · have hsum := sum_dedicatedPrbRatio hvalid
        have hle := sum_dedicatedPrb_loadPolicyFile hload
        exact_mod_cast hsum.trans_le hle
    · -- the xApp sends more policies than the gNB has entries for
      have haccepted : acceptedPolicies file = none := by
        rw [acceptedPolicies, hload, Option.filter_some, if_neg (by simpa using hlen)]
      rw [haccepted]
      refine ⟨mac, ?_, h⟩
      simp only [loopStep, hload, handleControlRequestAgent,
        refused_genRcSliceCtrl_long mac (not_le.mp hlen)]
      rfl

theorem InForce.slot (h : InForce policies mac) (slot : LoopSlot) :
    InForce policies (nrDlSchedule slot.env slot.params mac slot.vrbMap slot.cands).1.mac := by
  have htable :
      SameTable mac (nrDlSchedule slot.env slot.params mac slot.vrbMap slot.cands).1.mac :=
    sameTable_allocBeams slot.env slot.params ⟨mac, slot.vrbMap, 0, 0⟩ _
  obtain ⟨hcount, hentries, hrest⟩ := h.installed
  refine ⟨⟨htable.count.trans hcount, ?_, ?_⟩, ?_, h.ratios⟩
  · intro i hi
    rw [htable.policy]
    exact hentries i hi
  · intro i hi
    rw [htable.policy]
    exact hrest i hi
  · rw [SliceState.SwitchConsistent, htable.enabled, htable.count]
    exact h.switch

/-- What is in force stays so along any events, up to the next file that is accepted, and every file
that loads is answered with success. -/
theorem InForce.loopRun (h : InForce policies mac) (events : List LoopEvent) :
    ∃ outs mac', XApp.loopRun mac events = .done (outs, mac') ∧
      InForce (inForce policies events) mac' ∧
      outs.filterMap LoopOut.answer? = events.filterMap LoopEvent.answer? := by
  induction events generalizing policies mac with
  | nil => exact ⟨[], mac, rfl, h, rfl⟩
  | cons event events ih =>
    cases event with
    | policyFile file =>
      obtain ⟨mac₁, hstep, h₁⟩ := h.policyFile file
      obtain ⟨outs, mac', hrun, h', houts⟩ := ih h₁
      refine ⟨.answered (loadPolicyFile file).isSome :: outs, mac', ?_, h', ?_⟩
      · simp only [XApp.loopRun, hstep, hrun, Outcome.done_bind]
      · exact congrArg (_ :: ·) houts
    | slot slot =>
      obtain ⟨outs, mac', hrun, h', houts⟩ := ih (h.slot slot)
      refine ⟨.scheduled (nrDlSchedule slot.env slot.params mac slot.vrbMap slot.cands).2 :: outs,
        mac', ?_, h', houts⟩
      simp only [XApp.loopRun, loopStep, hrun, Outcome.done_bind]

/-- In a slot a slice of its own stays within its share, if its candidates are on one beam. -/
theorem InForce.sliceLoad_le (h : InForce policies mac) (slot : LoopSlot)
    (hfresh : Fresh slot.cands) {i : ℕ} {cfg : SlicePolicyCfg} (hcfg : policies[i]? = some cfg)
    (hown : ∀ (j : ℕ) (cfg' : SlicePolicyCfg), policies[j]? = some cfg' →
      (policyOf cfg').nssai = (policyOf cfg).nssai → j = i)
    (hone : ∀ c ∈ slot.cands, ∀ c' ∈ slot.cands, c.Eligible (policyOf cfg).nssai →
      c'.Eligible (policyOf cfg).nssai → SameBeam c c') :
    sliceLoad (policyOf cfg).nssai
        (nrDlSchedule slot.env slot.params mac slot.vrbMap slot.cands).2 ≤
      sliceCap slot.params (policyOf cfg).dedicatedPrbRatio := by
  obtain ⟨hcount, hentries, -⟩ := h.installed
  obtain ⟨hi, rfl⟩ := List.getElem?_eq_some_iff.mp hcfg
  have hentry := hentries i hi
  have howns : mac.OwnsSlice i := by
    refine ⟨hcount ▸ hi, by rw [hentry]; rfl, ?_⟩
    intro j hj _ hnssai
    rw [hcount] at hj
    rw [hentries j hj, hentry] at hnssai
    exact hown j _ (List.getElem?_eq_getElem hj) hnssai
  have hon : mac.dlSlicePolicyEnabled = true := h.switch.mpr (hcount ▸ Nat.zero_lt_of_lt hi)
  have hcapped : SliceCapped slot.env.nrComputeTbs slot.params mac i slot.cands :=
    sliceCapped_of_oneBeam howns hon hfresh (.inr (by rwa [hentry]))
  replace hcapped := hcapped slot.env slot.vrbMap rfl
  rwa [hentry] at hcapped

/-- Whatever files the xApp is handed and whatever slots come in between, no message aborts the gNB,
a file is answered with success exactly if it loads, and in every slot each slice of the last file
that loaded with at most as many policies as the gNB has entries stays within its share, if its
S-NSSAI is not listed twice and its new data is on one beam. All shares together fit into the
resource blocks of the beams. -/
theorem loopRun_inForce (events : List LoopEvent) :
    ∃ outs mac, loopRun .initial events = .done (outs, mac) ∧
      InstalledAs mac (inForce [] events) ∧
      outs.filterMap LoopOut.answer? = events.filterMap LoopEvent.answer? ∧
      ∀ slot : LoopSlot, Fresh slot.cands →
        ((inForce [] events).map fun cfg =>
            sliceCap slot.params (policyOf cfg).dedicatedPrbRatio).sum ≤
          ∑ b ∈ Finset.range slot.params.numBeams, slot.params.nRbAvail b ∧
        ∀ (i : ℕ) (cfg : SlicePolicyCfg), (inForce [] events)[i]? = some cfg →
          (∀ (j : ℕ) (cfg' : SlicePolicyCfg), (inForce [] events)[j]? = some cfg' →
            (policyOf cfg').nssai = (policyOf cfg).nssai → j = i) →
          (∀ c ∈ slot.cands, ∀ c' ∈ slot.cands, c.Eligible (policyOf cfg).nssai →
            c'.Eligible (policyOf cfg).nssai → SameBeam c c') →
          sliceLoad (policyOf cfg).nssai
              (nrDlSchedule slot.env slot.params mac slot.vrbMap slot.cands).2 ≤
            sliceCap slot.params (policyOf cfg).dedicatedPrbRatio := by
  obtain ⟨outs, mac, hrun, hforce, houts⟩ := inForce_initial.loopRun events
  refine ⟨outs, mac, hrun, hforce.installed, houts, ?_⟩
  intro slot hfresh
  refine ⟨?_, fun i cfg hcfg hown hone => hforce.sliceLoad_le slot hfresh hcfg hown hone⟩
  have hsum := sum_sliceCap_le slot.params hforce.ratios
  rwa [List.map_map] at hsum

end LlmHric.XApp
