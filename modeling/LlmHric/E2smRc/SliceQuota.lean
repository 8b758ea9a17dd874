import LlmHric.E2smRc.ControlMessage
import LlmHric.Mac.SlicePolicy
import Mathlib.Data.List.GetD

/-! RC control style 2 carries a list of RRM policy ratio groups, one per slice. The gNB walks the
untrusted tree with checks written by hand, collects one policy per group and replaces the
slice-policy table of the MAC. This file models the walk and states what a safe walk would
guarantee. -/

namespace LlmHric.E2smRc

open Checked CText Mac

/-- `RC_SLICE_PARAM_RRM_POLICY_RATIO_LIST` -/
def rrmPolicyRatioListId : ℕ := 1

/-- `RC_SLICE_PARAM_RRM_POLICY` -/
def rrmPolicyId : ℕ := 3

/-- `RC_SLICE_PARAM_RRM_POLICY_MEMBER_LIST` -/
def rrmPolicyMemberListId : ℕ := 4

/-- `RC_SLICE_PARAM_PLMN_IDENTITY` -/
def plmnIdentityId : ℕ := 6

/-- `RC_SLICE_PARAM_S_NSSAI` -/
def sNssaiId : ℕ := 7

/-- `RC_SLICE_PARAM_SST` -/
def sstId : ℕ := 8

/-- `RC_SLICE_PARAM_SD` -/
def sdId : ℕ := 9

/-- `RC_SLICE_PARAM_MIN_PRB_POLICY_RATIO` -/
def minPrbPolicyRatioId : ℕ := 10

/-- `RC_SLICE_PARAM_MAX_PRB_POLICY_RATIO` -/
def maxPrbPolicyRatioId : ℕ := 11

/-- `RC_SLICE_PARAM_DEDICATED_PRB_POLICY_RATIO` -/
def dedicatedPrbPolicyRatioId : ℕ := 12

/-! ### The walk -/

/-- An embedded structure: its size is checked, then its pointer. -/
def embeddedStruct (s : CArray SeqRanParam) (size : ℕ) : Outcome (CArray SeqRanParam) := do
  Outcome.require (s.size = size)
  Outcome.require (s.isNull = false)
  .done s

/-- A structure behind a pointer: id, kind, pointer and size are checked, but not the pointer to
its elements. -/
def structParam (param : SeqRanParam) (id : ℕ) (sizeOk : ℕ → Bool) :
    Outcome (CArray SeqRanParam) :=
  match param with
  | .mk i (.strct (some s)) => if i = id ∧ sizeOk s.size then .done s else .refused
  | _ => .refused

/-- A list behind a pointer, with the same checks. -/
def listParam (param : SeqRanParam) (id : ℕ) (sizeOk : ℕ → Bool) : Outcome (CArray LstRanParam) :=
  match param with
  | .mk i (.lst (some l)) => if i = id ∧ sizeOk l.size then .done l else .refused
  | _ => .refused

/-- The S-NSSAI of a member. Without a slice differentiator the value for "no SD" is used. -/
def parseSNssai (sNssaiParams : CArray SeqRanParam) : Outcome Nssai := do
  let sst ← getOctetUintParam (← sNssaiParams.read 0) sstId
  let sd ←
    if sNssaiParams.size > 1 then do
      getOctetUintParam (← sNssaiParams.read 1) sdId
    else .done 0xffffff
  Outcome.require (sst ≤ 255 ∧ sd ≤ 0xffffff)
  .done ⟨sst, sd⟩

/-- The three ratios of a group and their check. -/
def parseRatios (nssai : Nssai) (params : CArray SeqRanParam) : Outcome DlSlicePolicy := do
  let minRatio ← getIntegerParam (← params.read 1) minPrbPolicyRatioId
  let maxRatio ← getIntegerParam (← params.read 2) maxPrbPolicyRatioId
  let dedicatedRatio ← getIntegerParam (← params.read 3) dedicatedPrbPolicyRatioId
  Outcome.require (minRatio ≥ 0 ∧ minRatio ≤ 100 ∧ maxRatio ≥ 0 ∧ maxRatio ≤ 100 ∧
    dedicatedRatio ≥ 0 ∧ dedicatedRatio ≤ 100 ∧ minRatio ≤ dedicatedRatio ∧
    dedicatedRatio ≤ maxRatio)
  .done
    { active := true
      nssai := nssai
      minPrbRatio := minRatio.toNat
      maxPrbRatio := maxRatio.toNat
      dedicatedPrbRatio := dedicatedRatio.toNat }

/-- `parse_slice_policy_group`. Of the member list only the first member is used, and of the
member only the S-NSSAI. -/
def parseSlicePolicyGroup (group : LstRanParam) : Outcome DlSlicePolicy := do
  let params ← embeddedStruct group.ranParamStruct 4
  let rrmPolicy ← structParam (← params.read 0) rrmPolicyId (· == 1)
  let memberList ← listParam (← rrmPolicy.read 0) rrmPolicyMemberListId (1 ≤ ·)
  let member ← memberList.read 0
  -- element 0 is the PLMN identity, which is not looked at
  let memberParams ← embeddedStruct member.ranParamStruct 2
  let sNssaiParams ← structParam (← memberParams.read 1) sNssaiId (1 ≤ ·)
  let nssai ← parseSNssai sNssaiParams
  parseRatios nssai params

/-- The groups of a control message: exactly one parameter, a list of at most `maxNumSlices`
elements. The loop over the elements reads the array without a check of its pointer. -/
def ratioGroups : Option CtrlMsgFrmt1 → Outcome (List LstRanParam)
  | none => .refused
  | some msg => do
    let ranParam ← embeddedStruct msg.ranParam 1
    let list ← listParam (← ranParam.read 0) rrmPolicyRatioListId (· ≤ maxNumSlices)
    list.readAll

/-- The policies of all groups, parsed in order before the MAC is touched. -/
def parsedPolicies (msg : Option CtrlMsgFrmt1) : Outcome (List DlSlicePolicy) := do
  let groups ← ratioGroups msg
  groups.mapM parseSlicePolicyGroup

/-- `apply_rc_ctrl_style_2_slice_level_prb_quota` of a DU build: the verdict and the MAC instance
after the call. `nrmac` is the first MAC instance, if there is one. -/
def applyRcCtrlStyle2SliceLevelPrbQuota (nrmac : Option SliceState) (msg : Option CtrlMsgFrmt1) :
    Outcome (Bool × Option SliceState) :=
  match parsedPolicies msg with
  | .fault f => .fault f
  | .refused => .done (false, nrmac)
  | .done policies =>
    -- the MAC instance is looked up only now, after the whole message is parsed
    match nrmac with
    | none => .done (false, none)
    | some mac =>
      let result :=
        mac.nrMacSetDlSlicePolicies (fun i => policies.getD i .zeroed) policies.length
      .done (result.1, some result.2)

/-- The policy structure and the three ratio parameters of a group. -/
def GroupShape (group : LstRanParam) (rrmPolicy : CArray SeqRanParam)
    (minRatio maxRatio dedicatedRatio : SeqRanParam) : Prop :=
  group.ranParamStruct =
    .elems [.mk rrmPolicyId (.strct (some rrmPolicy)), minRatio, maxRatio, dedicatedRatio]

def PolicyShape (rrmPolicy : CArray SeqRanParam) (memberList : CArray LstRanParam) : Prop :=
  rrmPolicy = .elems [.mk rrmPolicyMemberListId (.lst (some memberList))]

def MemberShape (memberList : CArray LstRanParam) (sNssaiParams : CArray SeqRanParam) : Prop :=
  ∃ plmn rest, memberList =
    .elems (.mk (.elems [plmn, .mk sNssaiId (.strct (some sNssaiParams))]) :: rest)

def CarriesSNssai (sNssaiParams : CArray SeqRanParam) (nssai : Nssai) : Prop :=
  nssai.sst ≤ 255 ∧
  ((∃ sst, sNssaiParams = .elems [sst] ∧ CarriesUint sst sstId nssai.sst ∧
      nssai.sd = 0xffffff) ∨
    ∃ sst sd rest, sNssaiParams = .elems (sst :: sd :: rest) ∧
      CarriesUint sst sstId nssai.sst ∧ CarriesUint sd sdId nssai.sd)

def CarriesRatios (minRatio maxRatio dedicatedRatio : SeqRanParam) (p : DlSlicePolicy) : Prop :=
  CarriesInteger minRatio minPrbPolicyRatioId p.minPrbRatio ∧
  CarriesInteger maxRatio maxPrbPolicyRatioId p.maxPrbRatio ∧
  CarriesInteger dedicatedRatio dedicatedPrbPolicyRatioId p.dedicatedPrbRatio ∧ p.RatiosValid

def Carries (group : LstRanParam) (p : DlSlicePolicy) : Prop :=
  p.active = true ∧ ∃ rrmPolicy memberList sNssaiParams minRatio maxRatio dedicatedRatio,
    GroupShape group rrmPolicy minRatio maxRatio dedicatedRatio ∧
    PolicyShape rrmPolicy memberList ∧ MemberShape memberList sNssaiParams ∧
    CarriesSNssai sNssaiParams p.nssai ∧ CarriesRatios minRatio maxRatio dedicatedRatio p

/-- The S-NSSAI structure makes the walk abort: its elements are behind a null pointer, or the
first unread number is an octet string without bytes. -/
def SNssaiFaulty (sNssaiParams : CArray SeqRanParam) : Prop :=
  (∃ n, 1 ≤ n ∧ sNssaiParams = .null n) ∨
  (∃ sst rest, sNssaiParams = .elems (sst :: rest) ∧ NoText sst sstId) ∨
  ∃ sst sd rest n, sNssaiParams = .elems (sst :: sd :: rest) ∧ CarriesUint sst sstId n ∧
    NoText sd sdId

/-- A group makes the walk abort: a null pointer to the elements of a structure or list with a
declared size, or a faulty S-NSSAI. -/
def GroupFaulty (group : LstRanParam) : Prop :=
  ∃ rrmPolicy minRatio maxRatio dedicatedRatio,
    GroupShape group rrmPolicy minRatio maxRatio dedicatedRatio ∧
    (rrmPolicy = .null 1 ∨ ∃ memberList, PolicyShape rrmPolicy memberList ∧
      ((∃ n, 1 ≤ n ∧ memberList = .null n) ∨
        ∃ sNssaiParams, MemberShape memberList sNssaiParams ∧ SNssaiFaulty sNssaiParams))

/-- The message is a list of the given groups. -/
def HasGroups (msg : Option CtrlMsgFrmt1) (groups : List LstRanParam) : Prop :=
  groups.length ≤ maxNumSlices ∧ ∃ list : CArray LstRanParam, list.Holds groups ∧
    msg = some ⟨.elems [.mk rrmPolicyRatioListId (.lst (some list))]⟩

/-- The message makes the walk abort: its groups are behind a null pointer, or some group is
faulty after groups that carry policies. -/
def MsgFaulty (msg : Option CtrlMsgFrmt1) : Prop :=
  (∃ n, 1 ≤ n ∧ n ≤ maxNumSlices ∧
    msg = some ⟨.elems [.mk rrmPolicyRatioListId (.lst (some (.null n)))]⟩) ∨
  ∃ before group after, HasGroups msg (before ++ group :: after) ∧
    (∀ g ∈ before, ∃ p, Carries g p) ∧ GroupFaulty group

/-! ### Inversion of the single steps -/

theorem embeddedStruct_eq_done_iff {s r : CArray SeqRanParam} {n : ℕ} :
    embeddedStruct s n = .done r ↔ ∃ xs, s = .elems xs ∧ xs.length = n ∧ r = .elems xs := by
  cases s with
  | null m => simp [embeddedStruct]
  | elems xs =>
    simp only [embeddedStruct, Outcome.bind_eq_done_iff, Outcome.require_eq_done_iff, exists_const,
      Outcome.done.injEq, CArray.elems.injEq]
    constructor
    · rintro ⟨hlen, -, rfl⟩
      exact ⟨xs, rfl, hlen, rfl⟩
    · rintro ⟨ys, rfl, hlen, rfl⟩
      exact ⟨hlen, rfl, rfl⟩

theorem embeddedStruct_ne_fault {s : CArray SeqRanParam} {n : ℕ} {f : Fault} :
    embeddedStruct s n ≠ .fault f := by
  simp [embeddedStruct]

theorem structParam_eq_done_iff {param : SeqRanParam} {id : ℕ} {sizeOk : ℕ → Bool}
    {s : CArray SeqRanParam} :
    structParam param id sizeOk = .done s ↔
      param = .mk id (.strct (some s)) ∧ sizeOk s.size = true := by
  rcases param with ⟨i, _ | _ | (_ | t) | _ | _⟩ <;> grind [structParam]

theorem structParam_ne_fault {param : SeqRanParam} {id : ℕ} {sizeOk : ℕ → Bool} {f : Fault} :
    structParam param id sizeOk ≠ .fault f := by
  rcases param with ⟨i, _ | _ | (_ | t) | _ | _⟩ <;> grind [structParam]

theorem listParam_eq_done_iff {param : SeqRanParam} {id : ℕ} {sizeOk : ℕ → Bool}
    {l : CArray LstRanParam} :
    listParam param id sizeOk = .done l ↔
      param = .mk id (.lst (some l)) ∧ sizeOk l.size = true := by
  rcases param with ⟨i, _ | _ | _ | (_ | t) | _⟩ <;> grind [listParam]

theorem listParam_ne_fault {param : SeqRanParam} {id : ℕ} {sizeOk : ℕ → Bool} {f : Fault} :
    listParam param id sizeOk ≠ .fault f := by
  rcases param with ⟨i, _ | _ | _ | (_ | t) | _⟩ <;> grind [listParam]

/-- The S-NSSAI structure is parsed to exactly the slice it carries. -/
theorem parseSNssai_eq_done_iff {s : CArray SeqRanParam} {nssai : Nssai} :
    parseSNssai s = .done nssai ↔ CarriesSNssai s nssai := by
  rcases nssai with ⟨sst, sd⟩
  -- null, no element, an SST alone, an SST with an SD
  rcases s with n | (_ | ⟨a, _ | ⟨b, rest⟩⟩)
  · simp [parseSNssai, CarriesSNssai]
  · simp [parseSNssai, CarriesSNssai, CArray.read]
  · simp only [parseSNssai, CarriesSNssai, CArray.read_elems_zero, Outcome.done_bind,
      CArray.size_elems, List.length_singleton, gt_iff_lt, lt_irrefl, if_false,
      Outcome.bind_eq_done_iff, Outcome.require_eq_done_iff, exists_const, Outcome.done.injEq,
      getOctetUintParam_eq_done_iff, Nssai.mk.injEq]
    constructor
    · rintro ⟨n, hn, ⟨hle, -⟩, rfl, rfl⟩
      exact ⟨hle, .inl ⟨a, rfl, hn, rfl⟩⟩
    · rintro ⟨hle, ⟨a', heq, hn, rfl⟩ | ⟨a', b', rest', heq, -⟩⟩
      · cases heq
        exact ⟨sst, hn, ⟨hle, le_rfl⟩, rfl, rfl⟩
      · cases heq
  · have hsize : (CArray.elems (a :: b :: rest)).size > 1 := by simp
    simp only [parseSNssai, CarriesSNssai, CArray.read_elems_zero, CArray.read_elems_succ,
      Outcome.done_bind, if_pos hsize, Outcome.bind_eq_done_iff, Outcome.require_eq_done_iff,
      exists_const, Outcome.done.injEq, getOctetUintParam_eq_done_iff, Nssai.mk.injEq]
    constructor
    · rintro ⟨n, hn, m, hm, ⟨hle, -⟩, rfl, rfl⟩
      exact ⟨hle, .inr ⟨a, b, rest, rfl, hn, hm⟩⟩
    · rintro ⟨hle, ⟨a', heq, -⟩ | ⟨a', b', rest', heq, hn, hm⟩⟩
      · cases heq
      · cases heq
        exact ⟨sst, hn, sd, hm, ⟨hle, hm.1⟩, rfl, rfl⟩

/-- The S-NSSAI structure aborts the walk exactly when it is faulty; it is only read with a
declared size of at least one. -/
theorem exists_parseSNssai_eq_fault_iff {s : CArray SeqRanParam} (hs : 1 ≤ s.size) :
    (∃ f, parseSNssai s = .fault f) ↔ SNssaiFaulty s := by
  rcases s with n | (_ | ⟨a, _ | ⟨b, rest⟩⟩)
  · have hn : 1 ≤ n := hs
    simp [parseSNssai, SNssaiFaulty, hn]
  · simp at hs
  · simp [parseSNssai, SNssaiFaulty, ← exists_getOctetUintParam_eq_fault_iff]
  · have hsize : (CArray.elems (a :: b :: rest)).size > 1 := by simp
    simp only [parseSNssai, SNssaiFaulty, CArray.read_elems_zero, CArray.read_elems_succ,
      Outcome.done_bind, if_pos hsize, Outcome.bind_eq_fault_iff, Outcome.require_ne_fault,
      reduceCtorEq, and_false, exists_false, or_false, false_or,
      ← exists_getOctetUintParam_eq_fault_iff, ← getOctetUintParam_eq_done_iff]
    constructor
    · rintro ⟨f, hf | ⟨n, hn, hf⟩⟩
      · exact .inl ⟨a, b :: rest, rfl, f, hf⟩
      · exact .inr ⟨a, b, rest, n, rfl, hn, f, hf⟩
    · rintro (⟨a', rest', heq, f, hf⟩ | ⟨a', b', rest', n, heq, hn, f, hf⟩)
      · cases heq
        exact ⟨f, .inl hf⟩
      · cases heq
        exact ⟨f, .inr ⟨n, hn, hf⟩⟩

theorem parseRatios_eq_done_iff {nssai : Nssai} {p : DlSlicePolicy} {a b c d : SeqRanParam} :
    parseRatios nssai (.elems [a, b, c, d]) = .done p ↔
      p.active = true ∧ p.nssai = nssai ∧ CarriesRatios b c d p := by
  rcases p with ⟨active, pn, mn, mx, dd⟩
  simp only [parseRatios, CarriesRatios, CArray.read_elems_succ, CArray.read_elems_zero,
    Outcome.done_bind, Outcome.bind_eq_done_iff, Outcome.require_eq_done_iff, exists_const,
    getIntegerParam_eq_done_iff, Outcome.done.injEq, DlSlicePolicy.mk.injEq,
    DlSlicePolicy.RatiosValid]
  constructor
  · rintro ⟨x, hx, y, hy, z, hz, hrange, rfl, rfl, rfl, rfl, rfl⟩
    refine ⟨rfl, rfl, ?_, ?_, ?_, by omega⟩
    · rwa [Int.toNat_of_nonneg hrange.1]
    · rwa [Int.toNat_of_nonneg hrange.2.2.1]
    · rwa [Int.toNat_of_nonneg hrange.2.2.2.2.1]
  · rintro ⟨rfl, rfl, hx, hy, hz, hvalid⟩
    exact ⟨mn, hx, mx, hy, dd, hz, by omega, rfl, rfl, rfl, rfl, rfl⟩

theorem parseRatios_ne_fault {nssai : Nssai} {a b c d : SeqRanParam} {f : Fault} :
    parseRatios nssai (.elems [a, b, c, d]) ≠ .fault f := by
  simp [parseRatios, getIntegerParam_ne_fault]

/-! ### Inversion of the walk -/

section Walk

variable {group : LstRanParam} {rrmPolicy sNssaiParams : CArray SeqRanParam}
  {memberList : CArray LstRanParam} {minRatio maxRatio dedicatedRatio : SeqRanParam}

/-- Through a group of the right shape the walk gets to the S-NSSAI and the ratios. -/
theorem parseSlicePolicyGroup_of_shape
    (hgroup : GroupShape group rrmPolicy minRatio maxRatio dedicatedRatio)
    (hpolicy : PolicyShape rrmPolicy memberList) (hmember : MemberShape memberList sNssaiParams)
    (hsize : 1 ≤ sNssaiParams.size) :
    parseSlicePolicyGroup group =
      parseSNssai sNssaiParams >>= fun nssai => parseRatios nssai group.ranParamStruct := by
  obtain ⟨plmn, rest, rfl⟩ := hmember
  rw [PolicyShape] at hpolicy
  rw [GroupShape] at hgroup
  subst hpolicy
  simp [parseSlicePolicyGroup, hgroup, embeddedStruct, structParam, listParam, hsize]

/-- A group is accepted exactly with the policy it carries. -/
theorem parseSlicePolicyGroup_eq_done_iff {p : DlSlicePolicy} :
    parseSlicePolicyGroup group = .done p ↔ Carries group p := by
  constructor
  · intro h
    simp only [parseSlicePolicyGroup, Outcome.bind_eq_done_iff, embeddedStruct_eq_done_iff,
      structParam_eq_done_iff, listParam_eq_done_iff, parseSNssai_eq_done_iff] at h
    obtain ⟨_, ⟨params, hparams, hlen, rfl⟩, _, hpolicy, policy, ⟨rfl, hone⟩, _, hlist, members,
      ⟨rfl, -⟩, member, hmember, _, ⟨mparams, hmparams, hmlen, rfl⟩, _, hsnssai, s, ⟨rfl, -⟩,
      nssai, hnssai, hratios⟩ := h
    -- the checked sizes give the elements, and the reads tell which element is which
    obtain ⟨a, mn, mx, dd, rfl⟩ := List.length_eq_four.mp hlen
    obtain ⟨plmn, sn, rfl⟩ := List.length_eq_two.mp hmlen
    obtain rfl := Outcome.done.inj hpolicy
    obtain rfl := Outcome.done.inj hsnssai
    obtain ⟨rest, hmembers⟩ := CArray.read_zero_eq_done_iff.mp hmember
    rcases member with ⟨mstruct⟩
    obtain ⟨hactive, rfl, hcarries⟩ := parseRatios_eq_done_iff.mp hratios
    exact ⟨hactive, policy, members, s, mn, mx, dd, hparams,
      CArray.eq_elems_singleton_of_read (by simpa using hone) hlist,
      ⟨plmn, rest, by rw [hmembers, ← hmparams, LstRanParam.ranParamStruct_mk]⟩, hnssai, hcarries⟩
  · rintro ⟨hactive, policy, members, s, mn, mx, dd, hgroup, hpolicy, hmember, hnssai, hratios⟩
    have hsize : 1 ≤ s.size := by
      obtain ⟨-, ⟨_, rfl, -⟩ | ⟨_, _, _, rfl, -⟩⟩ := hnssai <;> simp
    rw [parseSlicePolicyGroup_of_shape hgroup hpolicy hmember hsize,
      parseSNssai_eq_done_iff.mpr hnssai, Outcome.done_bind, hgroup, parseRatios_eq_done_iff]
    exact ⟨hactive, rfl, hratios⟩

/-- A group aborts the walk exactly when it is faulty. -/
theorem exists_parseSlicePolicyGroup_eq_fault_iff :
    (∃ f, parseSlicePolicyGroup group = .fault f) ↔ GroupFaulty group := by
  constructor
  · rintro ⟨f, h⟩
    simp only [parseSlicePolicyGroup, Outcome.bind_eq_fault_iff, embeddedStruct_eq_done_iff,
      embeddedStruct_ne_fault, structParam_eq_done_iff, structParam_ne_fault,
      listParam_eq_done_iff, listParam_ne_fault, false_or] at h
    -- the structure of the group was checked in full, so its reads cannot fault
    obtain ⟨_, ⟨params, hparams, hlen, rfl⟩, hread⟩ := h
    obtain ⟨a, mn, mx, dd, rfl⟩ := List.length_eq_four.mp hlen
    rw [CArray.read_elems_zero] at hread
    obtain hread | ⟨_, hpolicy, policy, ⟨rfl, hone⟩, h⟩ := hread
    · cases hread
    obtain rfl := Outcome.done.inj hpolicy
    have hone : policy.size = 1 := by simpa using hone
    refine ⟨policy, mn, mx, dd, hparams, ?_⟩
    -- the policy structure has size 1 but perhaps no elements
    obtain hnull | ⟨_, hlist, members, ⟨rfl, hmany⟩, h⟩ := h
    · obtain ⟨-, n, -, rfl⟩ := (CArray.read_zero_eq_fault_iff hone.ge).mp hnull
      exact .inl (congrArg _ hone)
    refine .inr ⟨members, CArray.eq_elems_singleton_of_read hone hlist, ?_⟩
    -- likewise the member list
    obtain hnull | ⟨⟨mstruct⟩, hmember, _, ⟨mparams, hmparams, hmlen, rfl⟩, h⟩ := h
    · exact .inl ((CArray.read_zero_eq_fault_iff (by simpa using hmany)).mp hnull).2
    obtain ⟨plmn, sn, rfl⟩ := List.length_eq_two.mp hmlen
    obtain ⟨rest, rfl⟩ := CArray.read_zero_eq_done_iff.mp hmember
    rw [CArray.read_elems_succ, CArray.read_elems_zero] at h
    -- the member was checked in full; what is left is the S-NSSAI
    obtain hread | ⟨_, hsn, s, ⟨rfl, hsize⟩, h⟩ := h
    · cases hread
    obtain rfl := Outcome.done.inj hsn
    refine .inr ⟨s, ⟨plmn, rest, by rw [← hmparams, LstRanParam.ranParamStruct_mk]⟩, ?_⟩
    simp only [parseRatios_ne_fault, and_false, exists_false, or_false] at h
    exact (exists_parseSNssai_eq_fault_iff (by simpa using hsize)).mp ⟨f, h⟩
  · rintro ⟨policy, mn, mx, dd, hgroup, rfl | ⟨members, hpolicy, ⟨n, hn, rfl⟩ | ⟨s, hmember, hs⟩⟩⟩
    · rw [GroupShape] at hgroup
      simp [parseSlicePolicyGroup, hgroup, embeddedStruct, structParam]
    · rw [PolicyShape] at hpolicy
      rw [GroupShape] at hgroup
      subst hpolicy
      simp [parseSlicePolicyGroup, hgroup, embeddedStruct, structParam, listParam, hn]
    · have hsize : 1 ≤ s.size := by
        obtain ⟨n, hn, rfl⟩ | ⟨_, _, rfl, -⟩ | ⟨_, _, _, _, rfl, -⟩ := hs
        · exact hn
        · simp
        · simp
      obtain ⟨f, hf⟩ := (exists_parseSNssai_eq_fault_iff hsize).mpr hs
      refine ⟨f, ?_⟩
      rw [parseSlicePolicyGroup_of_shape hgroup hpolicy hmember hsize, hf, Outcome.fault_bind]

end Walk

theorem ratioGroups_eq_done_iff {msg : Option CtrlMsgFrmt1} {groups : List LstRanParam} :
    ratioGroups msg = .done groups ↔ HasGroups msg groups := by
  constructor
  · intro h
    rcases msg with _ | ⟨⟨ranParam⟩⟩
    · cases h
    simp only [ratioGroups, Outcome.bind_eq_done_iff, embeddedStruct_eq_done_iff,
      listParam_eq_done_iff, CArray.readAll_eq_done_iff] at h
    obtain ⟨_, ⟨params, rfl, hlen, rfl⟩, _, hread, list, ⟨rfl, hsize⟩, hlist⟩ := h
    obtain ⟨a, rfl⟩ := List.length_eq_one_iff.mp hlen
    obtain rfl := Outcome.done.inj hread
    rw [decide_eq_true_eq, hlist.size_eq] at hsize
    exact ⟨hsize, list, hlist, rfl⟩
  · rintro ⟨hlen, list, hlist, rfl⟩
    rw [← hlist.size_eq] at hlen
    simp [ratioGroups, embeddedStruct, listParam, hlen, CArray.readAll_eq_done_iff.mpr hlist]

theorem ratioGroups_eq_fault_iff {msg : Option CtrlMsgFrmt1} {f : Fault} :
    ratioGroups msg = .fault f ↔ f = .nullPointer ∧ ∃ n, 1 ≤ n ∧ n ≤ maxNumSlices ∧
      msg = some ⟨.elems [.mk rrmPolicyRatioListId (.lst (some (.null n)))]⟩ := by
  constructor
  · intro h
    rcases msg with _ | ⟨⟨ranParam⟩⟩
    · cases h
    simp only [ratioGroups, Outcome.bind_eq_fault_iff, embeddedStruct_eq_done_iff,
      embeddedStruct_ne_fault, listParam_eq_done_iff, listParam_ne_fault, false_or,
      CArray.readAll_eq_fault_iff] at h
    obtain ⟨_, ⟨params, rfl, hlen, rfl⟩, h⟩ := h
    obtain ⟨a, rfl⟩ := List.length_eq_one_iff.mp hlen
    obtain hread | ⟨_, hread, list, ⟨rfl, hsize⟩, rfl, n, hn, rfl⟩ := h
    · cases hread
    obtain rfl := Outcome.done.inj hread
    exact ⟨rfl, n, hn, of_decide_eq_true hsize, rfl⟩
  · rintro ⟨rfl, n, hn, hmax, rfl⟩
    obtain ⟨n, rfl⟩ := Nat.exists_eq_add_of_le' hn
    simp [ratioGroups, embeddedStruct, listParam, hmax, CArray.readAll]

theorem parsedPolicies_eq_done_iff {msg : Option CtrlMsgFrmt1} {policies : List DlSlicePolicy} :
    parsedPolicies msg = .done policies ↔
      ∃ groups, HasGroups msg groups ∧ List.Forall₂ Carries groups policies := by
  simp only [parsedPolicies, Outcome.bind_eq_done_iff, ratioGroups_eq_done_iff,
    Outcome.mapM_eq_done_iff, parseSlicePolicyGroup_eq_done_iff]

theorem exists_parsedPolicies_eq_fault_iff {msg : Option CtrlMsgFrmt1} :
    (∃ f, parsedPolicies msg = .fault f) ↔ MsgFaulty msg := by
  simp only [parsedPolicies, Outcome.bind_eq_fault_iff, ratioGroups_eq_done_iff,
    ratioGroups_eq_fault_iff, Outcome.mapM_eq_fault_iff, parseSlicePolicyGroup_eq_done_iff,
    MsgFaulty, ← exists_parseSlicePolicyGroup_eq_fault_iff]
  constructor
  · rintro ⟨f, ⟨-, hnull⟩ | ⟨_, hgroups, before, group, after, rfl, hbefore, hf⟩⟩
    · exact .inl hnull
    · exact .inr ⟨before, group, after, hgroups, hbefore, f, hf⟩
  · rintro (hnull | ⟨before, group, after, hgroups, hbefore, f, hf⟩)
    · exact ⟨_, .inl ⟨rfl, hnull⟩⟩
    · exact ⟨f, .inr ⟨_, hgroups, before, group, after, rfl, hbefore, hf⟩⟩

/-! ### The contract of the control -/

/-- The table of the MAC holds one entry per group, in order, with what the group carries. -/
def InstalledFrom (mac : SliceState) (groups : List LstRanParam) : Prop :=
  mac.dlSlicePolicyCount = groups.length ∧
  (∀ i (h : i < groups.length), Carries groups[i] (mac.dlSlicePolicy.entry i) ∧
    (mac.dlSlicePolicy.entry i).nssai.sst ≤ 255 ∧
    (mac.dlSlicePolicy.entry i).nssai.sd ≤ 0xffffff ∧
    (mac.dlSlicePolicy.entry i).RatiosValid) ∧
  ∀ i, groups.length ≤ i → (mac.dlSlicePolicy.entry i).active = false

/-- The control either refuses and leaves the MAC as it is, or installs exactly what the message
carries; it never aborts. -/
def QuotaContract (nrmac : Option SliceState) (msg : Option CtrlMsgFrmt1) : Prop :=
  applyRcCtrlStyle2SliceLevelPrbQuota nrmac msg = .done (false, nrmac) ∨
  ∃ groups mac, HasGroups msg groups ∧
    applyRcCtrlStyle2SliceLevelPrbQuota nrmac msg = .done (true, some mac) ∧
    InstalledFrom mac groups

theorem Carries.sst_le {group : LstRanParam} {p : DlSlicePolicy} (h : Carries group p) :
    p.nssai.sst ≤ 255 := by
  obtain ⟨-, _, _, _, _, _, _, -, -, -, hnssai, -⟩ := h
  exact hnssai.1

theorem Carries.sd_le {group : LstRanParam} {p : DlSlicePolicy} (h : Carries group p) :
    p.nssai.sd ≤ 0xffffff := by
  obtain ⟨-, _, _, _, _, _, _, -, -, -, ⟨-, hsd⟩, -⟩ := h
  rcases hsd with ⟨_, -, -, hsd⟩ | ⟨_, _, _, -, -, hsd⟩
  · exact hsd.le
  · exact hsd.1

theorem Carries.ratiosValid {group : LstRanParam} {p : DlSlicePolicy} (h : Carries group p) :
    p.RatiosValid := by
  obtain ⟨-, _, _, _, _, _, _, -, -, -, -, -, -, -, hvalid⟩ := h
  exact hvalid

theorem Carries.unique {group : LstRanParam} {p q : DlSlicePolicy} (hp : Carries group p)
    (hq : Carries group q) : p = q := by
  rw [← parseSlicePolicyGroup_eq_done_iff] at hp hq
  exact Outcome.done.inj (hp.symm.trans hq)

theorem Carries.activate_eq {group : LstRanParam} {p : DlSlicePolicy} (h : Carries group p) :
    p.activate = p := by
  rcases p with ⟨active, _, _, _, _⟩
  obtain rfl : active = true := h.1
  rfl

/-- Replacing the table by carried policies succeeds and installs them. -/
theorem installedFrom_of_carries (mac : SliceState) {groups : List LstRanParam}
    {policies : List DlSlicePolicy} (hlen : groups.length ≤ maxNumSlices)
    (h : List.Forall₂ Carries groups policies) :
    ∃ after, mac.nrMacSetDlSlicePolicies (fun i => policies.getD i .zeroed) policies.length =
      (true, after) ∧ InstalledFrom after groups := by
  have hlength : groups.length = policies.length := h.length_eq
  have hget : ∀ i (hi : i < groups.length), Carries groups[i] (policies.getD i .zeroed) := by
    intro i hi
    have hi' : i < policies.length := by omega
    rw [List.getD_eq_getElem _ _ hi']
    exact (List.forall₂_iff_get.mp h).2 i hi hi'
  have hvalid : ∀ i, i < (policies.length : ℤ).toNat → (policies.getD i .zeroed).RatiosValid :=
    fun i hi => (hget i (by omega)).ratiosValid
  refine ⟨_, SliceState.setDlSlicePolicies_of_valid mac (by omega) (by omega) hvalid, ?_⟩
  rw [Int.toNat_natCast, ← hlength]
  refine ⟨rfl, fun i hi => ?_, fun i hi => ?_⟩
  · rw [PolicyTable.entry_ofPrefix_of_lt hi hlen, (hget i hi).activate_eq]
    exact ⟨hget i hi, (hget i hi).sst_le, (hget i hi).sd_le, (hget i hi).ratiosValid⟩
  · rw [PolicyTable.entry_ofPrefix_of_le hi]
    rfl

/-- A message of groups that carry policies is accepted and installed. -/
theorem apply_of_carries (mac : SliceState) {msg : Option CtrlMsgFrmt1}
    {groups : List LstRanParam} {policies : List DlSlicePolicy} (hgroups : HasGroups msg groups)
    (h : List.Forall₂ Carries groups policies) :
    ∃ after, applyRcCtrlStyle2SliceLevelPrbQuota (some mac) msg = .done (true, some after) ∧
      InstalledFrom after groups := by
  obtain ⟨after, hset, hinstalled⟩ := installedFrom_of_carries mac hgroups.1 h
  have hparsed : parsedPolicies msg = .done policies :=
    parsedPolicies_eq_done_iff.mpr ⟨groups, hgroups, h⟩
  refine ⟨after, ?_, hinstalled⟩
  simp only [applyRcCtrlStyle2SliceLevelPrbQuota, hparsed, hset]

/-- The control meets its contract exactly on the messages that are not faulty: a null pointer to
the elements of a structure or list with a declared size, or an empty octet string as SST or SD,
aborts the gNB. -/
theorem quotaContract_iff (nrmac : Option SliceState) (msg : Option CtrlMsgFrmt1) :
    QuotaContract nrmac msg ↔ ¬ MsgFaulty msg := by
  rw [← exists_parsedPolicies_eq_fault_iff]
  cases hparsed : parsedPolicies msg with
  | fault f => simp [QuotaContract, applyRcCtrlStyle2SliceLevelPrbQuota, hparsed]
  | refused => simp [QuotaContract, applyRcCtrlStyle2SliceLevelPrbQuota, hparsed]
  | done policies =>
    refine iff_of_true ?_ (by simp)
    obtain ⟨groups, hgroups, hcarries⟩ := parsedPolicies_eq_done_iff.mp hparsed
    cases nrmac with
    | none => exact .inl (by simp [applyRcCtrlStyle2SliceLevelPrbQuota, hparsed])
    | some mac =>
      obtain ⟨after, happly, hinstalled⟩ := apply_of_carries mac hgroups hcarries
      exact .inr ⟨groups, after, hgroups, happly, hinstalled⟩

/-- A message with one group whose SST is the given octet string. -/
def msgWithSst (sst : CArray UInt8) : CtrlMsgFrmt1 where
  ranParam := .elems [.mk rrmPolicyRatioListId (.lst (some (.elems [.mk (.elems [
    .mk rrmPolicyId (.strct (some (.elems [
      .mk rrmPolicyMemberListId (.lst (some (.elems [.mk (.elems [
        .mk plmnIdentityId (.flagFalse (some (.octetString (.elems (ascii "00101"))))),
        .mk sNssaiId (.strct (some (.elems [.mk sstId (.flagFalse (some (.octetString sst)))])))
        ])])))
      ]))),
    .mk minPrbPolicyRatioId (.flagFalse (some (.integer 0))),
    .mk maxPrbPolicyRatioId (.flagFalse (some (.integer 100))),
    .mk dedicatedPrbPolicyRatioId (.flagFalse (some (.integer 50)))])])))]

/-- A control whose SST is an empty octet string aborts the gNB. -/
theorem not_quotaContract_emptySst :
    ¬ QuotaContract (some .initial) (some (msgWithSst (.elems []))) := by
  have hfault : applyRcCtrlStyle2SliceLevelPrbQuota (some .initial)
      (some (msgWithSst (.elems []))) = .fault .assertion := rfl
  rintro (h | ⟨_, _, -, h, -⟩)
  · rw [hfault] at h
    cases h
  · rw [hfault] at h
    cases h

end LlmHric.E2smRc
