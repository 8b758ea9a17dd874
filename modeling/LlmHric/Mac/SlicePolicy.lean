import Mathlib.Data.Fin.Basic
import Mathlib.Order.Nat
import Mathlib.Data.Nat.Find
import Mathlib.Tactic.Common

/-! The MAC instance carries a table of per-slice PRB policies. The E2 agent replaces the whole
table with one call; the downlink scheduler reads it in every slot. This file models the table, the
look-ups of the scheduler and the replacing call. -/

namespace LlmHric.Mac

/-- Capacity of the slice-policy table. -/
def maxNumSlices : ℕ := 1024

/-- Single network slice selection assistance information. -/
structure Nssai where
  sst : ℕ
  sd : ℕ
  deriving DecidableEq

/-- A PRB policy of one slice; the ratios are percentages. -/
structure DlSlicePolicy where
  active : Bool
  nssai : Nssai
  minPrbRatio : ℕ
  maxPrbRatio : ℕ
  dedicatedPrbRatio : ℕ
  deriving DecidableEq

namespace DlSlicePolicy

/-- The value `memset` leaves in a table entry. -/
def zeroed : DlSlicePolicy :=
  { active := false, nssai := ⟨0, 0⟩, minPrbRatio := 0, maxPrbRatio := 0, dedicatedPrbRatio := 0 }

/-- A copy of the policy marked active, as it is stored in the table. -/
def activate (p : DlSlicePolicy) : DlSlicePolicy := { p with active := true }

/-- The ratios are ordered percentages. -/
def RatiosValid (p : DlSlicePolicy) : Prop :=
  p.minPrbRatio ≤ p.dedicatedPrbRatio ∧ p.dedicatedPrbRatio ≤ p.maxPrbRatio ∧ p.maxPrbRatio ≤ 100

instance (p : DlSlicePolicy) : Decidable p.RatiosValid := by
  unfold RatiosValid
  infer_instance

/-- The rejection test of the replacing loop. -/
def ratiosRejected (p : DlSlicePolicy) : Bool :=
  p.minPrbRatio > 100 || p.maxPrbRatio > 100 || p.dedicatedPrbRatio > 100
    || p.minPrbRatio > p.dedicatedPrbRatio || p.dedicatedPrbRatio > p.maxPrbRatio

@[simp] theorem ratiosRejected_eq_false_iff {p : DlSlicePolicy} :
    p.ratiosRejected = false ↔ p.RatiosValid := by
  simp only [ratiosRejected, RatiosValid, Bool.or_eq_false_iff, decide_eq_false_iff_not, gt_iff_lt,
    not_lt]
  omega

@[simp] theorem ratiosRejected_eq_true_iff {p : DlSlicePolicy} :
    p.ratiosRejected = true ↔ ¬ p.RatiosValid := by
  rw [← ratiosRejected_eq_false_iff, Bool.not_eq_false]

theorem RatiosValid.activate {p : DlSlicePolicy} (h : p.RatiosValid) : p.activate.RatiosValid := h

end DlSlicePolicy

/-- The fixed-size policy array of the MAC instance. -/
abbrev PolicyTable := Fin maxNumSlices → DlSlicePolicy

namespace PolicyTable

/-- The table after `memset`. -/
def cleared : PolicyTable := fun _ => .zeroed

/-- The entry at an index; the loops of the source stay below the capacity. -/
def entry (t : PolicyTable) (i : ℕ) : DlSlicePolicy :=
  if h : i < maxNumSlices then t ⟨i, h⟩ else .zeroed

/-- Assignment to one entry. -/
def write (t : PolicyTable) (i : ℕ) (p : DlSlicePolicy) : PolicyTable :=
  fun j => if j.val = i then p else t j

/-- The table that holds the first `k` given policies, marked active, and nothing else. -/
def ofPrefix (policies : ℕ → DlSlicePolicy) (k : ℕ) : PolicyTable :=
  fun j => if j.val < k then (policies j).activate else .zeroed

theorem ofPrefix_zero (policies : ℕ → DlSlicePolicy) : ofPrefix policies 0 = cleared := by
  funext j
  simp [ofPrefix, cleared]

theorem ofPrefix_succ (policies : ℕ → DlSlicePolicy) (k : ℕ) :
    ofPrefix policies (k + 1) = (ofPrefix policies k).write k (policies k).activate := by
  funext j
  -- an entry before the new one, the new one, and the entries still clear
  rcases lt_trichotomy j.val k with h | h | h
  · simp [ofPrefix, write, h, h.ne, h.trans (Nat.lt_succ_self k)]
  · simp [ofPrefix, write, h]
  · have hlt : ¬ j.val < k + 1 := by omega
    simp [ofPrefix, write, hlt, h.ne', h.not_gt]

theorem entry_ofPrefix_of_lt {policies : ℕ → DlSlicePolicy} {k i : ℕ} (hi : i < k)
    (hk : k ≤ maxNumSlices) : (ofPrefix policies k).entry i = (policies i).activate := by
  have hmax : i < maxNumSlices := hi.trans_le hk
  simp [entry, ofPrefix, hmax, hi]

theorem entry_ofPrefix_of_le {policies : ℕ → DlSlicePolicy} {k i : ℕ} (hi : k ≤ i) :
    (ofPrefix policies k).entry i = .zeroed := by
  simp [entry, ofPrefix, hi.not_gt]

end PolicyTable

/-- The slice-policy fields of the MAC instance. -/
structure SliceState where
  dlSlicePolicy : PolicyTable
  dlSlicePolicyCount : ℕ
  dlSlicePolicyEnabled : Bool
  dlSlicePolicyPrbUsed : Fin maxNumSlices → ℕ
  dlSlicePolicyLastLogFrame : ℕ

namespace SliceState

/-- The state of a freshly allocated MAC instance. -/
def initial : SliceState where
  dlSlicePolicy := .cleared
  dlSlicePolicyCount := 0
  dlSlicePolicyEnabled := false
  dlSlicePolicyPrbUsed := fun _ => 0
  dlSlicePolicyLastLogFrame := 0

/-! ### Look-ups of the scheduler -/

/-- A candidate's S-NSSAI belongs to the slice of a policy. -/
def nssaiMatchesPolicy (candidate policy : Nssai) : Bool :=
  candidate.sst == policy.sst && candidate.sd == policy.sd

@[simp] theorem nssaiMatchesPolicy_iff {a b : Nssai} : nssaiMatchesPolicy a b = true ↔ a = b := by
  cases a
  cases b
  simp [nssaiMatchesPolicy]

/-- The `i`-th entry is in use and belongs to the slice `nssai`. -/
def Governs (mac : SliceState) (nssai : Nssai) (i : ℕ) : Prop :=
  i < mac.dlSlicePolicyCount ∧ (mac.dlSlicePolicy.entry i).active = true ∧
    (mac.dlSlicePolicy.entry i).nssai = nssai

/-- The loop of `find_slice_policy` from index `i` on, with `remaining` entries to go. -/
def findSlicePolicyFrom (table : PolicyTable) (nssai : Nssai) : ℕ → ℕ → Option ℕ
  | 0, _ => none
  | remaining + 1, i =>
    if (table.entry i).active && nssaiMatchesPolicy nssai (table.entry i).nssai then some i
    else findSlicePolicyFrom table nssai remaining (i + 1)

/-- The first entry in use that belongs to a slice; its index stands for its address. -/
def findSlicePolicy (mac : SliceState) (nssai : Nssai) : Option ℕ :=
  if mac.dlSlicePolicyEnabled then
    findSlicePolicyFrom mac.dlSlicePolicy nssai mac.dlSlicePolicyCount 0
  else none

theorem findSlicePolicyFrom_isSome {table : PolicyTable} {nssai : Nssai} {i remaining start : ℕ}
    (hstart : start ≤ i) (hi : i < start + remaining) (hactive : (table.entry i).active = true)
    (hnssai : (table.entry i).nssai = nssai) :
    (findSlicePolicyFrom table nssai remaining start).isSome = true := by
  induction remaining generalizing start with
  | zero => omega
  | succ n ih =>
    rw [findSlicePolicyFrom]
    split_ifs with hhit
    · rfl
    · -- entry `i` matches, so the missed one is an earlier entry
      refine ih ?_ (by omega)
      rcases hstart.eq_or_lt with rfl | hlt
      · simp [hactive, hnssai] at hhit
      · exact hlt

theorem findSlicePolicyFrom_eq_some {table : PolicyTable} {nssai : Nssai} {j remaining start : ℕ}
    (h : findSlicePolicyFrom table nssai remaining start = some j) :
    start ≤ j ∧ j < start + remaining ∧ (table.entry j).active = true ∧
      (table.entry j).nssai = nssai := by
  induction remaining generalizing start with
  | zero => exact absurd h (by simp [findSlicePolicyFrom])
  | succ n ih =>
    rw [findSlicePolicyFrom] at h
    split_ifs at h with hhit
    · obtain rfl := Option.some_inj.mp h
      obtain ⟨hactive, hnssai⟩ := Bool.and_eq_true_iff.mp hhit
      exact ⟨le_rfl, by omega, hactive, (nssaiMatchesPolicy_iff.mp hnssai).symm⟩
    · obtain ⟨hle, hlt, hrest⟩ := ih h
      exact ⟨by omega, by omega, hrest⟩

/-- The look-up returns an entry in use that belongs to the slice, and only while the policies are
switched on. -/
theorem governs_of_findSlicePolicy {mac : SliceState} {nssai : Nssai} {j : ℕ}
    (h : mac.findSlicePolicy nssai = some j) :
    mac.dlSlicePolicyEnabled = true ∧ mac.Governs nssai j := by
  unfold findSlicePolicy at h
  split_ifs at h with hen
  obtain ⟨-, hlt, hactive, hnssai⟩ := findSlicePolicyFrom_eq_some h
  exact ⟨hen, by omega, hactive, hnssai⟩

theorem Governs.findSlicePolicy_isSome {mac : SliceState} {nssai : Nssai} {i : ℕ}
    (h : mac.Governs nssai i) (hen : mac.dlSlicePolicyEnabled = true) :
    (mac.findSlicePolicy nssai).isSome = true := by
  obtain ⟨hi, hactive, hnssai⟩ := h
  rw [findSlicePolicy, if_pos hen]
  exact findSlicePolicyFrom_isSome (Nat.zero_le i) (by omega) hactive hnssai

/-! ### Replacing the table -/

/-- The loop of `nr_mac_set_dl_slice_policies` from index `i` on, with `remaining` entries to go.
It stops at the first rejected entry and keeps what it has written. -/
def copyPolicies (policies : ℕ → DlSlicePolicy) : ℕ → ℕ → PolicyTable → Bool × PolicyTable
  | 0, _, table => (true, table)
  | remaining + 1, i, table =>
    if (policies i).ratiosRejected then (false, table)
    else copyPolicies policies remaining (i + 1) (table.write i (policies i).activate)

/-- `nr_mac_set_dl_slice_policies`: the verdict and the MAC state after the call. `policies` is
the array the caller passes. -/
def nrMacSetDlSlicePolicies (mac : SliceState) (policies : ℕ → DlSlicePolicy) (count : ℤ) :
    Bool × SliceState :=
  if count < 0 || count > maxNumSlices then (false, mac)
  else
    -- the table and the counters are cleared before the first entry is checked
    let wiped : SliceState :=
      { mac with
        dlSlicePolicy := .cleared
        dlSlicePolicyPrbUsed := fun _ => 0
        dlSlicePolicyLastLogFrame := 0 }
    match copyPolicies policies count.toNat 0 .cleared with
    -- count and switch keep their old values on this path
    | (false, table) => (false, { wiped with dlSlicePolicy := table })
    | (true, table) =>
      (true,
        { wiped with
          dlSlicePolicy := table
          dlSlicePolicyCount := count.toNat
          dlSlicePolicyEnabled := decide (count > 0) })

section Replacement

variable {policies : ℕ → DlSlicePolicy} {count : ℤ}

theorem copyPolicies_of_valid (policies : ℕ → DlSlicePolicy) {i n : ℕ}
    (h : ∀ j, i ≤ j → j < i + n → (policies j).RatiosValid) :
    copyPolicies policies n i (.ofPrefix policies i) = (true, .ofPrefix policies (i + n)) := by
  induction n generalizing i with
  | zero => rfl
  | succ n ih =>
    have hi : (policies i).ratiosRejected = false :=
      DlSlicePolicy.ratiosRejected_eq_false_iff.mpr (h i le_rfl (by omega))
    rw [copyPolicies, hi, if_neg Bool.false_ne_true, ← PolicyTable.ofPrefix_succ,
      ih fun j hj hjn => h j (by omega) (by omega)]
    congr 2
    omega

theorem copyPolicies_of_invalid (policies : ℕ → DlSlicePolicy) {i k n : ℕ} (hik : i ≤ k)
    (hk : k < i + n) (hvalid : ∀ j, i ≤ j → j < k → (policies j).RatiosValid)
    (hbad : ¬ (policies k).RatiosValid) :
    copyPolicies policies n i (.ofPrefix policies i) = (false, .ofPrefix policies k) := by
  induction n generalizing i with
  | zero => omega
  | succ n ih =>
    rw [copyPolicies]
    rcases hik.eq_or_lt with rfl | hlt
    · rw [if_pos (DlSlicePolicy.ratiosRejected_eq_true_iff.mpr hbad)]
    · rw [DlSlicePolicy.ratiosRejected_eq_false_iff.mpr (hvalid i le_rfl hlt),
        if_neg Bool.false_ne_true, ← PolicyTable.ofPrefix_succ]
      exact ih hlt (by omega) fun j hj hjk => hvalid j (by omega) hjk

/-- A count outside the table's range is refused before anything is written. -/
theorem setDlSlicePolicies_of_count (mac : SliceState) (policies : ℕ → DlSlicePolicy)
    (h : count < 0 ∨ (maxNumSlices : ℤ) < count) :
    mac.nrMacSetDlSlicePolicies policies count = (false, mac) := by
  have hguard : (decide (count < 0) || decide (count > (maxNumSlices : ℤ))) = true := by
    simpa using h
  rw [nrMacSetDlSlicePolicies, if_pos hguard]

private theorem set_guard (h0 : 0 ≤ count) (hmax : count ≤ maxNumSlices) :
    ¬ (decide (count < 0) || decide (count > (maxNumSlices : ℤ))) = true := by
  simp only [Bool.or_eq_true, decide_eq_true_eq]
  omega

/-- A list of valid policies is installed as given. -/
theorem setDlSlicePolicies_of_valid (mac : SliceState) (h0 : 0 ≤ count)
    (hmax : count ≤ maxNumSlices)
    (h : ∀ j, j < count.toNat → (policies j).RatiosValid) :
    mac.nrMacSetDlSlicePolicies policies count =
      (true,
        { dlSlicePolicy := .ofPrefix policies count.toNat
          dlSlicePolicyCount := count.toNat
          dlSlicePolicyEnabled := decide (count > 0)
          dlSlicePolicyPrbUsed := fun _ => 0
          dlSlicePolicyLastLogFrame := 0 }) := by
  have hcopy := copyPolicies_of_valid policies (i := 0) (n := count.toNat)
    fun j _ hj => h j (by omega)
  rw [PolicyTable.ofPrefix_zero, Nat.zero_add] at hcopy
  rw [nrMacSetDlSlicePolicies, if_neg (set_guard h0 hmax), hcopy]

/-- An invalid entry refuses the call, but the old table and its counters are already gone: the
entries before the invalid one stand in the cleared table. -/
theorem setDlSlicePolicies_of_invalid (mac : SliceState) {k : ℕ} (hmax : count ≤ maxNumSlices)
    (hk : k < count.toNat) (hvalid : ∀ j, j < k → (policies j).RatiosValid)
    (hbad : ¬ (policies k).RatiosValid) :
    mac.nrMacSetDlSlicePolicies policies count =
      (false,
        { mac with
          dlSlicePolicy := .ofPrefix policies k
          dlSlicePolicyPrbUsed := fun _ => 0
          dlSlicePolicyLastLogFrame := 0 }) := by
  have hcopy := copyPolicies_of_invalid policies (i := 0) (n := count.toNat)
    (Nat.zero_le k) (by omega) (fun j _ hj => hvalid j hj) hbad
  rw [PolicyTable.ofPrefix_zero] at hcopy
  rw [nrMacSetDlSlicePolicies, if_neg (set_guard (by omega) hmax), hcopy]

/-- Every call falls under one of the three cases above. -/
theorem setDlSlicePolicies_cases (policies : ℕ → DlSlicePolicy) (count : ℤ) :
    (count < 0 ∨ (maxNumSlices : ℤ) < count) ∨
    (0 ≤ count ∧ count ≤ maxNumSlices ∧ ∀ j, j < count.toNat → (policies j).RatiosValid) ∨
    (count ≤ maxNumSlices ∧ ∃ k, k < count.toNat ∧ (∀ j, j < k → (policies j).RatiosValid) ∧
      ¬ (policies k).RatiosValid) := by
  by_cases hrange : count < 0 ∨ (maxNumSlices : ℤ) < count
  · exact .inl hrange
  · refine .inr ?_
    have hmax : count ≤ maxNumSlices := by omega
    by_cases hall : ∀ j, j < count.toNat → (policies j).RatiosValid
    · exact .inl ⟨by omega, hmax, hall⟩
    · -- the loop stops at the first invalid entry
      push Not at hall
      obtain ⟨hk, hbad⟩ := Nat.find_spec hall
      refine .inr ⟨hmax, Nat.find hall, hk, fun j hj => ?_, hbad⟩
      by_contra hjbad
      exact Nat.find_min hall hj ⟨hj.trans hk, hjbad⟩

/-- The switch of the slice policies is on exactly when the table has entries. -/
def SwitchConsistent (mac : SliceState) : Prop :=
  mac.dlSlicePolicyEnabled = true ↔ 0 < mac.dlSlicePolicyCount

theorem switchConsistent_initial : initial.SwitchConsistent := by
  simp [SwitchConsistent, initial]

/-- Every call keeps the switch consistent with the count, refused or not. -/
theorem SwitchConsistent.set {mac : SliceState} (h : mac.SwitchConsistent)
    (policies : ℕ → DlSlicePolicy) (count : ℤ) :
    (mac.nrMacSetDlSlicePolicies policies count).2.SwitchConsistent := by
  rcases setDlSlicePolicies_cases policies count with
    hrange | ⟨h0, hmax, hall⟩ | ⟨hmax, k, hk, hvalid, hbad⟩
  · rw [setDlSlicePolicies_of_count mac policies hrange]
    exact h
  · rw [setDlSlicePolicies_of_valid mac h0 hmax hall]
    simp only [SwitchConsistent, decide_eq_true_eq]
    omega
  · rw [setDlSlicePolicies_of_invalid mac hmax hk hvalid hbad]
    exact h

/-! ### Is the replacement all-or-nothing? -/

/-- The fields a refused replacement must leave alone agree in two states. -/
def SameSlices (before after : SliceState) : Prop :=
  after.dlSlicePolicy = before.dlSlicePolicy ∧
  after.dlSlicePolicyCount = before.dlSlicePolicyCount ∧
  after.dlSlicePolicyEnabled = before.dlSlicePolicyEnabled ∧
  after.dlSlicePolicyPrbUsed = before.dlSlicePolicyPrbUsed

/-- The table holds exactly the first `count` given policies, active and with ordered ratios. -/
def Installed (after : SliceState) (policies : ℕ → DlSlicePolicy) (count : ℤ) : Prop :=
  after.dlSlicePolicyCount = count.toNat ∧
  (∀ i : Fin maxNumSlices, (i.val : ℤ) < count →
    after.dlSlicePolicy i = (policies i).activate ∧ (after.dlSlicePolicy i).RatiosValid) ∧
  (∀ i : Fin maxNumSlices, count ≤ (i.val : ℤ) → (after.dlSlicePolicy i).active = false) ∧
  (after.dlSlicePolicyEnabled = true ↔ 0 < count)

/-- One call of `nr_mac_set_dl_slice_policies` is all-or-nothing. -/
def SetIsAtomic (mac : SliceState) (policies : ℕ → DlSlicePolicy) (count : ℤ) : Prop :=
  ((mac.nrMacSetDlSlicePolicies policies count).1 = false →
    SameSlices mac (mac.nrMacSetDlSlicePolicies policies count).2) ∧
  ((mac.nrMacSetDlSlicePolicies policies count).1 = true →
    Installed (mac.nrMacSetDlSlicePolicies policies count).2 policies count)

/-- The table already holds the policies before the first invalid one and nothing else, with all
counters at zero: clearing and refilling it changes nothing. -/
def AlreadyPrefix (mac : SliceState) (policies : ℕ → DlSlicePolicy) (count : ℤ) : Prop :=
  ∃ k, k < count.toNat ∧ (∀ j, j < k → (policies j).RatiosValid) ∧ ¬ (policies k).RatiosValid ∧
    mac.dlSlicePolicy = .ofPrefix policies k ∧ mac.dlSlicePolicyPrbUsed = fun _ => 0

theorem installed_ofPrefix (h0 : 0 ≤ count)
    (h : ∀ j, j < count.toNat → (policies j).RatiosValid) :
    Installed
      { dlSlicePolicy := .ofPrefix policies count.toNat
        dlSlicePolicyCount := count.toNat
        dlSlicePolicyEnabled := decide (count > 0)
        dlSlicePolicyPrbUsed := fun _ => 0
        dlSlicePolicyLastLogFrame := 0 } policies count := by
  refine ⟨rfl, fun i hi => ?_, fun i hi => ?_, by simp⟩
  · have hlt : i.val < count.toNat := by omega
    have hentry : PolicyTable.ofPrefix policies count.toNat i = (policies i).activate := by
      simp [PolicyTable.ofPrefix, hlt]
    refine ⟨hentry, ?_⟩
    change (PolicyTable.ofPrefix policies count.toNat i).RatiosValid
    rw [hentry]
    exact (h i hlt).activate
  · have hge : ¬ i.val < count.toNat := by omega
    simp [PolicyTable.ofPrefix, hge, DlSlicePolicy.zeroed]

private theorem first_invalid_unique {k k' : ℕ}
    (hvalid : ∀ j, j < k → (policies j).RatiosValid) (hbad : ¬ (policies k).RatiosValid)
    (hvalid' : ∀ j, j < k' → (policies j).RatiosValid) (hbad' : ¬ (policies k').RatiosValid) :
    k = k' := by
  rcases lt_trichotomy k k' with h | h | h
  · exact absurd (hvalid' k h) hbad
  · exact h
  · exact absurd (hvalid k' h) hbad'

end Replacement

/-- A replacement is all-or-nothing exactly when the count is out of range, every given policy is
valid, or the table before the call is the one the refused call leaves behind. -/
theorem setIsAtomic_iff (mac : SliceState) (policies : ℕ → DlSlicePolicy) (count : ℤ) :
    mac.SetIsAtomic policies count ↔
      count < 0 ∨ (maxNumSlices : ℤ) < count ∨
      (∀ j, j < count.toNat → (policies j).RatiosValid) ∨ mac.AlreadyPrefix policies count := by
  rcases setDlSlicePolicies_cases policies count with
    hrange | ⟨h0, hmax, hall⟩ | ⟨hmax, k, hk, hvalid, hbad⟩
  · have hset := setDlSlicePolicies_of_count mac policies hrange
    have hleft : mac.SetIsAtomic policies count := by
      rw [SetIsAtomic, hset]
      exact ⟨fun _ => ⟨rfl, rfl, rfl, rfl⟩, fun h => absurd h Bool.false_ne_true⟩
    exact iff_of_true hleft (hrange.imp_right .inl)
  · have hset := setDlSlicePolicies_of_valid mac h0 hmax hall
    have hleft : mac.SetIsAtomic policies count := by
      rw [SetIsAtomic, hset]
      exact ⟨fun h => absurd h.symm Bool.false_ne_true, fun _ => installed_ofPrefix h0 hall⟩
    exact iff_of_true hleft (.inr (.inr (.inl hall)))
  · have hset := setDlSlicePolicies_of_invalid mac hmax hk hvalid hbad
    rw [SetIsAtomic, hset]
    -- refused: the state is the same only if it was the cleared and refilled one before
    constructor
    · rintro ⟨hsame, -⟩
      obtain ⟨htable, -, -, hused⟩ := hsame rfl
      exact .inr (.inr (.inr ⟨k, hk, hvalid, hbad, htable.symm, hused.symm⟩))
    · rintro (hneg | hbig | hall | ⟨k', -, hvalid', hbad', htable, hused⟩)
      · omega
      · omega
      · exact absurd (hall k hk) hbad
      · obtain rfl := first_invalid_unique hvalid hbad hvalid' hbad'
        exact ⟨fun _ => ⟨htable.symm, rfl, rfl, hused.symm⟩,
          fun h => absurd h Bool.false_ne_true⟩

/-- A table with one 40 % slice, as a successful call leaves it. -/
def oneSlice : SliceState where
  dlSlicePolicy := .ofPrefix (fun _ => ⟨true, ⟨1, 1⟩, 0, 100, 40⟩) 1
  dlSlicePolicyCount := 1
  dlSlicePolicyEnabled := true
  dlSlicePolicyPrbUsed := fun _ => 0
  dlSlicePolicyLastLogFrame := 0

/-- Replacing the one-slice table by a policy whose minimum exceeds its dedicated ratio is
refused, and the slice that was configured is gone. -/
theorem not_setIsAtomic_oneSlice :
    ¬ oneSlice.SetIsAtomic (fun _ => ⟨false, ⟨2, 2⟩, 60, 100, 50⟩) 1 := by
  rintro ⟨hsame, -⟩
  obtain ⟨htable, -⟩ := hsame (by decide)
  have hactive := congrArg DlSlicePolicy.active (congrFun htable ⟨0, by decide⟩)
  revert hactive
  decide

end SliceState

end LlmHric.Mac
