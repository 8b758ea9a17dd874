import LlmHric.Library.FirstFit
import LlmHric.Rrc.RadioBearers
import Mathlib.Data.List.Perm.Subperm

/-! A flow is either alone on its DRB or shares it with others up to a limit. With the load of a DRB
as a bin and the kind of a flow as an item, the choice of a DRB is first fit over the DRBs of the
session, and a bin is opened by taking the smallest free identifier. -/

namespace LlmHric.Rrc

open Checked FirstFit

/-- How a flow shares a DRB. -/
inductive FlowKind
  | alone
  | gbr
  | nonGbr
  deriving DecidableEq

/-- The flows on a DRB by kind. -/
@[ext] structure Load where
  alone : ℕ
  gbr : ℕ
  nonGbr : ℕ
  deriving DecidableEq

namespace Load

def empty : Load := ⟨0, 0, 0⟩

def put (l : Load) : FlowKind → Load
  | .alone => { l with alone := l.alone + 1 }
  | .gbr => { l with gbr := l.gbr + 1 }
  | .nonGbr => { l with nonGbr := l.nonGbr + 1 }

/-- A DRB takes one more flow. -/
def fits (l : Load) : FlowKind → Bool
  | .alone => false
  | .gbr => l.alone = 0 && l.gbr < 2 && l.gbr + l.nonGbr < 5
  | .nonGbr => l.alone = 0 && l.nonGbr < 5 && l.gbr + l.nonGbr < 5

/-- One flow alone, or others within their limits. -/
def Ok (l : Load) : Prop :=
  l.alone = 1 ∧ l.gbr = 0 ∧ l.nonGbr = 0 ∨ l.alone = 0 ∧ l.gbr ≤ 2 ∧ l.gbr + l.nonGbr ≤ 5

theorem ok_empty : empty.Ok := .inr ⟨rfl, Nat.zero_le _, Nat.zero_le _⟩

theorem ok_put_empty (k : FlowKind) : (empty.put k).Ok := by
  cases k
  · exact .inl ⟨rfl, rfl, rfl⟩
  · exact .inr ⟨rfl, by decide, by decide⟩
  · exact .inr ⟨rfl, by decide, by decide⟩

theorem Ok.put {l : Load} {k : FlowKind} (h : l.Ok) (hfits : l.fits k = true) : (l.put k).Ok := by
  cases k with
  | alone => cases hfits
  | gbr =>
    simp only [fits, Bool.and_eq_true, decide_eq_true_eq] at hfits
    simp only [Ok, Load.put] at h ⊢
    omega
  | nonGbr =>
    simp only [fits, Bool.and_eq_true, decide_eq_true_eq] at hfits
    simp only [Ok, Load.put] at h ⊢
    omega

theorem Ok.mono {l m : Load} (h : m.Ok) (ha : l.alone ≤ m.alone) (hg : l.gbr ≤ m.gbr)
    (hn : l.nonGbr ≤ m.nonGbr) : l.Ok := by
  unfold Ok at h ⊢
  omega

end Load

/-! ### Classifications as functions -/

/-- The number of a flow. -/
def number : QosCharacteristics → Option ℕ
  | .nonDynamic n => some n
  | .dynamic n _ _ _ => n

/-- What `addQos` checks of a number. -/
def Acceptable : QosCharacteristics → Prop
  | .nonDynamic n => Standardized n
  | .dynamic .. => True

instance (c : QosCharacteristics) : Decidable (Acceptable c) := by
  cases c <;> unfold Acceptable <;> infer_instance

/-- A number, if there is one, is a 5QI. -/
def FiveqiInRange (c : QosCharacteristics) : Prop := ∀ n, number c = some n → n ≤ maxFiveqi

instance (c : QosCharacteristics) : Decidable (FiveqiInRange c) := by
  unfold FiveqiInRange
  cases number c with
  | none => exact .isTrue (by simp)
  | some n => exact decidable_of_iff (n ≤ maxFiveqi) (by simp)

def resourceType (c : QosCharacteristics) : QosResourceType :=
  match number c with
  | none => .dcGbr
  | some n => if Standardized n then fiveQiResourceType n else .dcGbr

def dedicated : QosCharacteristics → Bool
  | .nonDynamic n | .dynamic (some n) _ _ _ =>
    !Standardized n || fiveQiResourceType n = .dcGbr || decide (DedicatedFiveqi n)
  | .dynamic none priority budget per => dedicatedCharacteristics priority budget per

/-- Flows with a DRB of their own by either classification are alone. -/
def kind (c : QosCharacteristics) : FlowKind :=
  if dedicated c then .alone
  else
    match resourceType c with
    | .dcGbr => .alone
    | .gbr => .gbr
    | .nonGbr => .nonGbr

variable {c : QosCharacteristics} {flows pre post : List RrcQos} {q : RrcQos}
  {drbs : List Drb} {sid d : ℕ}

theorem Standardized.le {n : ℕ} (h : Standardized n) : n ≤ maxStandardizedFiveqi := by
  unfold Standardized maxStandardizedFiveqi at *
  omega

theorem Standardized.le_maxFiveqi {n : ℕ} (h : Standardized n) : n ≤ maxFiveqi :=
  Nat.le_trans h.le (by decide)

theorem ne_noFiveqi {n : ℕ} (h : n ≤ maxFiveqi) : n ≠ noFiveqi := by
  unfold maxFiveqi at h
  unfold noFiveqi
  omega

theorem is5qiStandardized_eq {n : ℕ} (h : n ≤ maxFiveqi) :
    is5qiStandardized n = .done (decide (Standardized n)) := by
  simp [is5qiStandardized, h]

theorem getQosFiveqi_eq (hc : Acceptable c) (hn : FiveqiInRange c) :
    getQosFiveqi c = .done ((number c).getD noFiveqi) := by
  match c, hc, hn with
  | .nonDynamic n, hc, _ => simp [getQosFiveqi, number, Standardized.le hc]
  | .dynamic (some n) .., _, hn => simp [getQosFiveqi, number, hn n rfl]
  | .dynamic none .., _, _ => rfl

/-- A number that is no 5QI is caught by an assertion. -/
theorem getQosFiveqi_eq_fault (hc : Acceptable c) (hn : ¬ FiveqiInRange c) :
    getQosFiveqi c = .fault .assertion := by
  match c, hc, hn with
  | .nonDynamic n, hc, hn =>
    exact absurd (fun m hm => Option.some.inj hm ▸ Standardized.le_maxFiveqi hc) hn
  | .dynamic (some n) .., _, hn =>
    have hlt : ¬ n ≤ maxFiveqi := fun hle => hn fun m hm => Option.some.inj hm ▸ hle
    simp [getQosFiveqi, hlt]
  | .dynamic none .., _, hn => exact absurd (fun m hm => by cases hm) hn

theorem nrRrcQosDedicatedDrb_eq (hc : Acceptable c) (hn : FiveqiInRange c) :
    nrRrcQosDedicatedDrb c = .done (dedicated c) := by
  unfold nrRrcQosDedicatedDrb
  rw [getQosFiveqi_eq hc hn, Outcome.done_bind]
  match c, hc, hn with
  | .nonDynamic n, _, hn | .dynamic (some n) .., _, hn =>
    have hle : n ≤ maxFiveqi := hn n rfl
    have hne := ne_noFiveqi hle
    simp only [number, Option.getD_some, ne_eq, hne, not_false_eq_true, if_true,
      is5qiStandardized_eq hle, Outcome.done_bind, dedicated]
    by_cases hs : Standardized n
    · by_cases ht : fiveQiResourceType n = .dcGbr
      · simp [hs, ht]
      · simp only [hs, ht, decide_true, decide_false, Bool.not_true, Bool.false_or, if_false,
          Bool.false_eq_true, Outcome.pure_eq]
        rfl
    · simp [hs]
  | .dynamic none .., _, _ => simp [number, dedicated]

theorem countedAs_eq (hc : Acceptable c) (hn : FiveqiInRange c) :
    countedAs c = .done (resourceType c) := by
  rw [countedAs, getQosFiveqi_eq hc hn, Outcome.done_bind, resourceType]
  cases hnum : number c with
  | none => simp
  | some n =>
    have hle : n ≤ maxFiveqi := hn n hnum
    have hne := ne_noFiveqi hle
    simp only [Option.getD_some, if_neg hne, is5qiStandardized_eq hle, Outcome.done_bind]
    by_cases hs : Standardized n
    · simp [hs, hs.le]
    · simp [hs]

/-- A flow whose number every classification accepts. -/
def Sound (q : RrcQos) : Prop :=
  Acceptable q.qos.characteristics ∧ FiveqiInRange q.qos.characteristics

def RrcQos.kind (q : RrcQos) : FlowKind := Rrc.kind q.qos.characteristics

def countKind (k : FlowKind) (flows : List RrcQos) (d : ℕ) : ℕ :=
  flows.countP fun q => q.drbId = d ∧ q.kind = k

def load (flows : List RrcQos) (d : ℕ) : Load :=
  ⟨countKind .alone flows d, countKind .gbr flows d, countKind .nonGbr flows d⟩

def countType (t : QosResourceType) (flows : List RrcQos) (d : ℕ) : ℕ :=
  flows.countP fun q => q.drbId = d ∧ resourceType q.qos.characteristics = t

theorem countKind_insert (k : FlowKind) (d : ℕ) : countKind k (pre ++ q :: post) d =
    countKind k (pre ++ post) d + if q.drbId = d ∧ q.kind = k then 1 else 0 := by
  simp only [countKind, List.countP_append, List.countP_cons, decide_eq_true_eq]
  omega

/-- One more flow on a DRB. -/
theorem load_insert (d : ℕ) : load (pre ++ q :: post) d =
    if q.drbId = d then (load (pre ++ post) d).put q.kind else load (pre ++ post) d := by
  unfold load
  simp only [countKind_insert]
  by_cases hd : q.drbId = d
  · cases hk : q.kind <;> simp [hd, Load.put]
  · simp [hd]

theorem load_total (flows : List RrcQos) (d : ℕ) :
    (load flows d).alone + (load flows d).gbr + (load flows d).nonGbr =
      flows.countP fun q => q.drbId = d := by
  induction flows with
  | nil => rfl
  | cons q flows ih =>
    rw [List.countP_cons, ← ih, ← List.nil_append (q :: flows), load_insert, List.nil_append]
    by_cases hd : q.drbId = d
    · cases hk : q.kind <;> simp [hd, Load.put] <;> omega
    · simp [hd]

theorem load_eq_empty (h : ∀ q ∈ flows, q.drbId ≠ d) : load flows d = .empty := by
  have hcount : ∀ k, countKind k flows d = 0 := by
    intro k
    rw [countKind, List.countP_eq_zero]
    intro q hq
    simp [h q hq]
  simp [load, hcount, Load.empty]

theorem Load.Ok.of_sublist {flows' : List RrcQos} (h : (load flows d).Ok)
    (hsub : flows'.Sublist flows) : (load flows' d).Ok :=
  h.mono hsub.countP_le hsub.countP_le hsub.countP_le

/-! ### Counting -/

theorem nrRrcCountQosFlowsByType_eq (h : ∀ q ∈ flows, q.drbId = d → Sound q) :
    nrRrcCountQosFlowsByType flows d =
      .done ⟨countType .dcGbr flows d, countType .gbr flows d, countType .nonGbr flows d⟩ := by
  -- the counters of the flows visited are added to those at the start
  suffices hfrom : ∀ c : FlowCounts, flows.foldlM (fun c q =>
      if q.drbId = d then do
        let type ← countedAs q.qos.characteristics
        return c.add type
      else return c) c = .done ⟨c.dcGbr + countType .dcGbr flows d,
        c.gbr + countType .gbr flows d, c.nonGbr + countType .nonGbr flows d⟩ by
    simpa [nrRrcCountQosFlowsByType] using hfrom ⟨0, 0, 0⟩
  induction flows with
  | nil => intro c; rfl
  | cons q flows ih =>
    intro c
    rw [List.forall_mem_cons] at h
    rw [List.foldlM_cons]
    by_cases hd : q.drbId = d
    · rw [if_pos hd, countedAs_eq (h.1 hd).1 (h.1 hd).2, Outcome.done_bind, Outcome.pure_eq,
        Outcome.done_bind, ih h.2]
      cases ht : resourceType q.qos.characteristics <;>
        simp [FlowCounts.add, countType, hd, ht] <;> omega
    · rw [if_neg hd, Outcome.pure_eq, Outcome.done_bind, ih h.2]
      simp [countType, hd]

theorem hasDedicatedFlowOnDrb_eq (h : ∀ q ∈ flows, q.drbId = d → Sound q) :
    hasDedicatedFlowOnDrb d flows =
      .done (flows.any fun q => q.drbId = d && dedicated q.qos.characteristics) := by
  induction flows with
  | nil => rfl
  | cons q flows ih =>
    rw [List.forall_mem_cons] at h
    rw [hasDedicatedFlowOnDrb, ih h.2]
    by_cases hd : q.drbId = d
    · rw [if_neg (not_not.mpr hd), nrRrcQosDedicatedDrb_eq (h.1 hd).1 (h.1 hd).2]
      cases hded : dedicated q.qos.characteristics <;> simp [hd, hded]
    · simp [hd]

theorem countType_dcGbr_le : countType .dcGbr flows d ≤ countKind .alone flows d := by
  unfold countType countKind
  apply List.countP_mono_left
  intro q _ hq
  simp only [decide_eq_true_eq] at hq ⊢
  refine ⟨hq.1, ?_⟩
  unfold RrcQos.kind kind
  rw [hq.2]
  simp

/-- The two reasons to leave a DRB alone are that it carries a flow of its own. -/
theorem countKind_alone_eq_zero_iff : countKind .alone flows d = 0 ↔
    countType .dcGbr flows d = 0 ∧
      (flows.any fun q => q.drbId = d && dedicated q.qos.characteristics) = false := by
  unfold countKind countType
  simp only [List.countP_eq_zero, List.any_eq_false, ← forall_and]
  apply forall_congr'
  intro q
  by_cases hd : q.drbId = d
  · cases hded : dedicated q.qos.characteristics <;>
      cases ht : resourceType q.qos.characteristics <;>
        simp [hd, hded, ht, RrcQos.kind, kind]
  · simp [hd]

/-- On a DRB without a flow of its own the counters of the source are the load. -/
theorem countType_eq (h : countKind .alone flows d = 0) :
    countType .gbr flows d = countKind .gbr flows d ∧
      countType .nonGbr flows d = countKind .nonGbr flows d := by
  have halone : ∀ q ∈ flows, q.drbId = d → q.kind ≠ .alone := by
    intro q hq hd hk
    rw [countKind, List.countP_eq_zero] at h
    exact h q hq (by simp [hd, hk])
  constructor
  all_goals
    unfold countType countKind
    apply List.countP_congr
    intro q hq
    by_cases hd : q.drbId = d
    · have hk := halone q hq hd
      unfold RrcQos.kind kind at hk ⊢
      cases hded : dedicated q.qos.characteristics <;>
        cases ht : resourceType q.qos.characteristics <;> simp_all
    · simp [hd]

/-! ### The choice of a DRB -/

def sharedKind : QosResourceType → FlowKind
  | .gbr => .gbr
  | .nonGbr => .nonGbr
  | .dcGbr => .alone

theorem hasCapacity_load (h : countKind .alone flows d = 0) (t : QosResourceType) (dc : ℕ) :
    (hasCapacity t ⟨dc, countKind .gbr flows d, countKind .nonGbr flows d⟩ &&
      decide (countKind .gbr flows d + countKind .nonGbr flows d < maxQosFlowsPerDrbTotal)) =
        (load flows d).fits (sharedKind t) := by
  cases t with
  | nonGbr =>
    simp only [load, sharedKind, Load.fits, h, decide_true, Bool.true_and]
    rfl
  | gbr =>
    simp only [load, sharedKind, Load.fits, h, decide_true, Bool.true_and]
    rfl
  | dcGbr => rfl

theorem fits_eq_false (h : countKind .alone flows d ≠ 0) (t : QosResourceType) :
    (load flows d).fits (sharedKind t) = false := by
  cases t <;> simp [load, Load.fits, sharedKind, h]

/-- What the loop needs of the DRBs of the session. -/
def DrbsCounted (drbs : List Drb) (sid : ℕ) (flows : List RrcQos) : Prop :=
  ∀ drb ∈ drbs, drb.pdusessionId = sid →
    (∀ q ∈ flows, q.drbId = drb.drbId → Sound q) ∧ (load flows drb.drbId).Ok

/-- The loop finds the first DRB of the session that takes the flow. -/
theorem findDrbWithCapacity_eq {t : QosResourceType} (h : DrbsCounted drbs sid flows) :
    findDrbWithCapacity sid t flows drbs =
      .done (((drbs.filter fun drb => drb.pdusessionId = sid).find? fun drb =>
        (load flows drb.drbId).fits (sharedKind t)).map Drb.drbId) := by
  induction drbs with
  | nil => rfl
  | cons drb drbs ih =>
    have ih := ih fun e he => h e (List.mem_cons_of_mem _ he)
    rw [findDrbWithCapacity, ih]
    by_cases hsid : drb.pdusessionId = sid
    swap
    · simp [hsid]
    obtain ⟨hsound, hok⟩ := h drb (List.mem_cons_self ..) hsid
    rw [if_neg (not_not.mpr hsid), nrRrcCountQosFlowsByType_eq hsound, Outcome.done_bind,
      hasDedicatedFlowOnDrb_eq hsound, List.filter_cons_of_pos (by simpa using hsid)]
    have hle : countType .dcGbr flows drb.drbId ≤ maxQosFlowsPerDrbDcGbr := by
      apply Nat.le_trans countType_dcGbr_le
      rcases hok with ⟨h1, -, -⟩ | ⟨h0, -, -⟩
      · exact Nat.le_of_eq h1
      · exact Nat.le_trans (Nat.le_of_eq h0) (Nat.zero_le _)
    rw [Outcome.assertFatal_of hle, Outcome.done_bind]
    by_cases halone : countKind .alone flows drb.drbId = 0
    · obtain ⟨hdc, hded⟩ := countKind_alone_eq_zero_iff.mp halone
      obtain ⟨hgbr, hnon⟩ := countType_eq halone
      have hfits := hasCapacity_load halone t 0
      have hne : ¬ (0 : ℕ) = maxQosFlowsPerDrbDcGbr := Nat.zero_ne_one
      rw [hgbr, hnon, hded, Outcome.done_bind, hdc, if_neg hne, if_neg Bool.false_ne_true,
        List.find?_cons, ← hfits]
      split_ifs with hroom
      · simp [hroom]
      · rw [not_and_or, Bool.not_eq_true] at hroom
        rcases hroom with hroom | hroom <;> simp [hroom]
    · -- the DRB carries a flow of its own, so one of the two checks passes over it
      rw [List.find?_cons_of_neg (by simp [fits_eq_false halone t])]
      by_cases hdc : countType .dcGbr flows drb.drbId = maxQosFlowsPerDrbDcGbr
      · rw [if_pos hdc]
      · rw [if_neg hdc, Outcome.done_bind, if_pos]
        rw [countKind_alone_eq_zero_iff, not_and_or, Bool.not_eq_false] at halone
        refine halone.resolve_left fun hdc0 => ?_
        unfold maxQosFlowsPerDrbDcGbr at hle hdc
        omega

/-- The first DRB of a session that takes a flow. -/
def suitableDrb (drbs : List Drb) (sid : ℕ) (flows : List RrcQos) (k : FlowKind) : Option Drb :=
  (drbs.filter fun drb => drb.pdusessionId = sid).find? fun drb => (load flows drb.drbId).fits k

theorem kind_of_not_standardized (h : ∀ n, number c = some n → ¬ Standardized n) :
    kind c = .alone := by
  unfold kind resourceType
  cases hnum : number c with
  | none => simp
  | some n => simp [h n hnum]

theorem kind_eq_sharedKind {n : ℕ} (hnum : number c = some n) (hs : Standardized n)
    (hded : dedicated c = false) : kind c = sharedKind (fiveQiResourceType n) := by
  unfold kind resourceType
  cases ht : fiveQiResourceType n <;> simp [hnum, hs, hded, ht, sharedKind]

theorem suitableDrb_alone : suitableDrb drbs sid flows .alone = none := by
  simp [suitableDrb, Load.fits]

theorem nrRrcFindSuitableDrbForQos_eq (hc : Acceptable c) (hn : FiveqiInRange c)
    (h : DrbsCounted drbs sid flows) :
    nrRrcFindSuitableDrbForQos drbs sid c flows =
      .done ((suitableDrb drbs sid flows (kind c)).map Drb.drbId) := by
  unfold nrRrcFindSuitableDrbForQos
  rw [getQosFiveqi_eq hc hn, Outcome.done_bind]
  by_cases hstd : ∃ n, number c = some n ∧ Standardized n
  · obtain ⟨n, hnum, hs⟩ := hstd
    have hne := ne_noFiveqi hs.le_maxFiveqi
    rw [hnum, Option.getD_some, if_neg hne, is5qiStandardized_eq hs.le_maxFiveqi,
      Outcome.done_bind, nrRrcQosDedicatedDrb_eq hc hn]
    simp only [hs, decide_true, Bool.not_true, Bool.false_eq_true, if_false, Outcome.done_bind,
      findDrbWithCapacity_eq h]
    cases hded : dedicated c with
    | true => simp [kind, hded, suitableDrb_alone]
    | false =>
      rw [kind_eq_sharedKind hnum hs hded]
      cases ht : fiveQiResourceType n with
      | dcGbr => simp [sharedKind, suitableDrb_alone]
      | gbr | nonGbr => simp [sharedKind, suitableDrb]
  · have hnot : ∀ n, number c = some n → ¬ Standardized n :=
      fun n hnum hs => hstd ⟨n, hnum, hs⟩
    rw [kind_of_not_standardized hnot, suitableDrb_alone]
    match c, hc, hn, hnot with
    | .nonDynamic n, hc, _, hnot => exact absurd hc (hnot n rfl)
    | .dynamic (some n) .., _, hn, hnot =>
      have hle : n ≤ maxFiveqi := hn n rfl
      simp [number, ne_noFiveqi hle, is5qiStandardized_eq hle, hnot n rfl]
    | .dynamic none .., _, _, _ => simp [number]

/-! ### Identifiers -/

/-- Identifiers are distinct and in `1..32`. -/
structure DrbIdsOk (drbs : List Drb) : Prop where
  nodup : (drbs.map Drb.drbId).Nodup
  pos : ∀ drb ∈ drbs, 0 < drb.drbId
  le : ∀ drb ∈ drbs, drb.drbId ≤ maxDrbsPerUe

/-- The smallest identifier that no DRB has. -/
def freeDrbId (drbs : List Drb) : Option ℕ :=
  (List.range' 1 maxDrbsPerUe).find? fun id => id ∉ drbs.map Drb.drbId

theorem nextDrbId_eq {left id : ℕ} (hpos : 0 < id) (hle : id + left ≤ maxDrbsPerUe + 1) :
    nextDrbId drbs left id =
      .done ((List.range' id left).find? fun id => id ∉ drbs.map Drb.drbId) := by
  induction left generalizing id with
  | zero => rfl
  | succ left ih =>
    have hget : getDrb drbs id = .done (drbs.find? fun drb => drb.drbId = id) := by
      rw [getDrb, Outcome.assertFatal_of ⟨hpos, by omega⟩]
      rfl
    have hused : (drbs.find? fun drb => drb.drbId = id) = none ↔ id ∉ drbs.map Drb.drbId := by
      simp
    rw [nextDrbId, hget, Outcome.done_bind, List.range'_succ, List.find?_cons]
    cases hfound : drbs.find? fun drb => drb.drbId = id with
    | none =>
      rw [decide_eq_true (hused.mp hfound)]
      rfl
    | some drb =>
      have hmem : ¬ id ∉ drbs.map Drb.drbId := fun hnot => by
        rw [hused.mpr hnot] at hfound
        cases hfound
      rw [decide_eq_false hmem]
      exact ih (Nat.succ_pos _) (by omega)

theorem freeDrbId_spec {id : ℕ} (h : freeDrbId drbs = some id) :
    0 < id ∧ id ≤ maxDrbsPerUe ∧ id ∉ drbs.map Drb.drbId := by
  have hmem := List.mem_of_find?_eq_some h
  have hfree := List.find?_some h
  rw [List.mem_range'_1] at hmem
  exact ⟨hmem.1, by omega, of_decide_eq_true hfree⟩

/-- There is a free identifier exactly as long as there are fewer than 32 DRBs. -/
theorem isSome_freeDrbId_iff (h : DrbIdsOk drbs) :
    (freeDrbId drbs).isSome ↔ drbs.length < maxDrbsPerUe := by
  have hids : ∀ id, id ∈ drbs.map Drb.drbId → id ∈ List.range' 1 maxDrbsPerUe := by
    intro id hid
    obtain ⟨drb, hdrb, rfl⟩ := List.mem_map.mp hid
    rw [List.mem_range'_1]
    exact ⟨h.pos drb hdrb, Nat.lt_one_add_iff.mpr (h.le drb hdrb)⟩
  rw [freeDrbId, List.find?_isSome]
  constructor
  · rintro ⟨id, hid, hfree⟩
    have hfree : id ∉ drbs.map Drb.drbId := of_decide_eq_true hfree
    have hsub : (id :: drbs.map Drb.drbId).Subperm (List.range' 1 maxDrbsPerUe) :=
      (List.nodup_cons.mpr ⟨hfree, h.nodup⟩).subperm
        (List.cons_subset.mpr ⟨hid, hids⟩)
    have hle := hsub.length_le
    rw [List.length_cons, List.length_map, List.length_range'] at hle
    exact hle
  · intro hlt
    by_contra hall
    have hsub : (List.range' 1 maxDrbsPerUe).Subperm (drbs.map Drb.drbId) := by
      apply List.Nodup.subperm List.nodup_range'
      intro id hid
      by_contra hfree
      exact hall ⟨id, hid, decide_eq_true hfree⟩
    have hle := hsub.length_le
    rw [List.length_range', List.length_map] at hle
    omega

theorem DrbIdsOk.length_le (h : DrbIdsOk drbs) : drbs.length ≤ maxDrbsPerUe := by
  have hsub : (drbs.map Drb.drbId).Subperm (List.range' 1 maxDrbsPerUe) := by
    apply h.nodup.subperm
    intro id hid
    obtain ⟨drb, hdrb, rfl⟩ := List.mem_map.mp hid
    rw [List.mem_range'_1]
    exact ⟨h.pos drb hdrb, Nat.lt_one_add_iff.mpr (h.le drb hdrb)⟩
  simpa using hsub.length_le

theorem DrbIdsOk.concat {id : ℕ} (h : DrbIdsOk drbs) (hid : freeDrbId drbs = some id) :
    DrbIdsOk (drbs ++ [⟨id, sid⟩]) := by
  obtain ⟨hpos, hle, hfree⟩ := freeDrbId_spec hid
  refine ⟨?_, ?_, ?_⟩
  · rw [List.map_append, List.map_singleton, List.nodup_append_comm, List.singleton_append]
    exact List.nodup_cons.mpr ⟨hfree, h.nodup⟩
  · intro drb hdrb
    rcases List.mem_append.mp hdrb with hdrb | hdrb
    · exact h.pos drb hdrb
    · exact List.mem_singleton.mp hdrb ▸ hpos
  · intro drb hdrb
    rcases List.mem_append.mp hdrb with hdrb | hdrb
    · exact h.le drb hdrb
    · exact List.mem_singleton.mp hdrb ▸ hle

theorem DrbIdsOk.sublist {drbs' : List Drb} (h : DrbIdsOk drbs) (hsub : drbs'.Sublist drbs) :
    DrbIdsOk drbs' where
  nodup := h.nodup.sublist (hsub.map _)
  pos := fun drb hdrb => h.pos drb (hsub.subset hdrb)
  le := fun drb hdrb => h.le drb (hsub.subset hdrb)

theorem nrRrcAddDrb_eq (hsid : 0 < sid ∧ sid ≤ nrMaxNbPduSessions) :
    nrRrcAddDrb drbs sid =
      .done ((freeDrbId drbs).map fun id => (drbs ++ [⟨id, sid⟩], ⟨id, sid⟩)) := by
  rw [nrRrcAddDrb, Outcome.assertFatal_of hsid, Outcome.done_bind,
    nextDrbId_eq Nat.one_pos (Nat.le_of_eq (Nat.add_comm ..)), Outcome.done_bind, ← freeDrbId]
  cases freeDrbId drbs <;> rfl

/-- What an assignment makes of the DRBs: the first suitable one, or a new one if there is a free
identifier. -/
def assignment (drbs : List Drb) (sid : ℕ) (flows : List RrcQos) (k : FlowKind) :
    Option Assignment :=
  match suitableDrb drbs sid flows k with
  | some drb => some { drbs, drbId := drb.drbId, isNewDrb := false }
  | none => (freeDrbId drbs).map fun id =>
      { drbs := drbs ++ [⟨id, sid⟩], drbId := id, isNewDrb := true }

theorem mem_of_suitableDrb {k : FlowKind} {drb : Drb}
    (h : suitableDrb drbs sid flows k = some drb) :
    drb ∈ drbs ∧ drb.pdusessionId = sid ∧ (load flows drb.drbId).fits k = true := by
  unfold suitableDrb at h
  have hmem := List.mem_filter.mp (List.mem_of_find?_eq_some h)
  have hfits := List.find?_some h
  exact ⟨hmem.1, of_decide_eq_true hmem.2, hfits⟩

theorem nrRrcAssignDrbToQosFlow_eq (hsid : 0 < sid ∧ sid ≤ nrMaxNbPduSessions)
    (hids : DrbIdsOk drbs) (hc : Acceptable c) (hn : FiveqiInRange c)
    (h : DrbsCounted drbs sid flows) :
    nrRrcAssignDrbToQosFlow drbs sid flows c =
      match assignment drbs sid flows (kind c) with
      | some a => .done a
      | none => .fault .assertion := by
  unfold nrRrcAssignDrbToQosFlow assignment
  rw [getQosFiveqi_eq hc hn, Outcome.done_bind, nrRrcFindSuitableDrbForQos_eq hc hn h,
    Outcome.done_bind]
  cases hdrb : suitableDrb drbs sid flows (kind c) with
  | some drb =>
    have hmem := (mem_of_suitableDrb hdrb).1
    have hrange : 0 < drb.drbId ∧ drb.drbId ≤ maxDrbsPerUe := ⟨hids.pos drb hmem, hids.le drb hmem⟩
    simp only [Option.map_some, Outcome.assertFatal_of hrange]
    rfl
  | none =>
    simp only [Option.map_none, nrRrcAddDrb_eq hsid, Outcome.done_bind]
    cases hid : freeDrbId drbs with
    | none => rfl
    | some id =>
      obtain ⟨hpos, hle, -⟩ := freeDrbId_spec hid
      simp [hpos, hle]

theorem nrRrcAssignDrbToQosFlow_eq_fault (hc : Acceptable c) (hn : ¬ FiveqiInRange c) :
    nrRrcAssignDrbToQosFlow drbs sid flows c = .fault .assertion := by
  rw [nrRrcAssignDrbToQosFlow, getQosFiveqi_eq_fault hc hn, Outcome.fault_bind]

end LlmHric.Rrc
