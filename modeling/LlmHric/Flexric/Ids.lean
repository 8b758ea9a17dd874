import Mathlib.Order.Basic
import Mathlib.Tactic.Common

/-! A RIC request is identified by the triple that E2AP carries in every message of a subscription
or control procedure, an E2 node by its type, PLMN and numbers, and an SCTP association by the
address of its peer. The comparison functions return 1, 0 or -1 in the source; 1 is `lt` here. -/

namespace LlmHric.Flexric

/-- The identifier of a RIC request. -/
structure RicGenId where
  ricReqId : ℕ
  ricInstId : ℕ
  ranFuncId : ℕ
  deriving DecidableEq

/-- `cmp_ric_gen_id` -/
def cmpRicGenId : RicGenId → RicGenId → Ordering :=
  compareLex (compareOn (·.ranFuncId))
    (compareLex (compareOn (·.ricInstId)) (compareOn (·.ricReqId)))

instance : Std.TransCmp cmpRicGenId := by
  unfold cmpRicGenId
  infer_instance

/-- `eq_ric_gen_id` -/
def eqRicGenId (a b : RicGenId) : Bool :=
  a.ricReqId == b.ricReqId && a.ricInstId == b.ricInstId && a.ranFuncId == b.ranFuncId

@[simp] theorem eqRicGenId_iff {a b : RicGenId} : eqRicGenId a b = true ↔ a = b := by
  cases a
  cases b
  simp [eqRicGenId, and_assoc]

@[simp] theorem cmpRicGenId_eq_iff {a b : RicGenId} : cmpRicGenId a b = .eq ↔ a = b := by
  rcases a with ⟨req, inst, func⟩
  rcases b with ⟨req', inst', func'⟩
  simp only [cmpRicGenId, compareLex, compareOn, Ordering.then_eq_eq, Nat.compare_eq_eq,
    RicGenId.mk.injEq]
  constructor
  · rintro ⟨h₁, h₂, h₃⟩
    exact ⟨h₃, h₂, h₁⟩
  · rintro ⟨h₁, h₂, h₃⟩
    exact ⟨h₃, h₂, h₁⟩

/-- `cmp_fd` -/
def cmpFd : ℕ → ℕ → Ordering := compare

instance : Std.TransCmp cmpFd := by
  unfold cmpFd
  infer_instance

@[simp] theorem cmpFd_eq_iff {a b : ℕ} : cmpFd a b = .eq ↔ a = b := Nat.compare_eq_eq

/-- A comparison of two values by a common component. -/
theorem transCmp_on {α β : Type} (cmp : β → β → Ordering) [Std.TransCmp cmp] (f : α → β) :
    Std.TransCmp fun a b => cmp (f a) (f b) where
  eq_swap := Std.OrientedCmp.eq_swap
  isLE_trans := Std.TransCmp.isLE_trans

/-! ### E2 nodes -/

/-- `ngran_node_t` -/
inductive NgranNode
  | eNB | ngEnb | gNB | eNBCu | ngEnbCu | gNBCu | eNBDu | gNBDu | eNBMbmsSta | gNBCucp | gNBCuup
  deriving DecidableEq

/-- The number of a node type. -/
def NgranNode.toNat : NgranNode → ℕ
  | eNB => 0
  | ngEnb => 1
  | gNB => 2
  | eNBCu => 3
  | ngEnbCu => 4
  | gNBCu => 5
  | eNBDu => 6
  | gNBDu => 7
  | eNBMbmsSta => 8
  | gNBCucp => 9
  | gNBCuup => 10

theorem NgranNode.toNat_inj {a b : NgranNode} : a.toNat = b.toNat ↔ a = b := by
  constructor
  · intro h
    cases a <;> cases b <;> first | rfl | cases h
  · exact congrArg _

/-- `NODE_IS_CU` -/
def NgranNode.isCu (t : NgranNode) : Bool :=
  t == eNBCu || t == ngEnbCu || t == gNBCu || t == gNBCucp || t == gNBCuup

/-- `NODE_IS_DU` -/
def NgranNode.isDu (t : NgranNode) : Bool := t == eNBDu || t == gNBDu

/-- `NODE_IS_CUUP` -/
def NgranNode.isCuup (t : NgranNode) : Bool := t == gNBCuup

/-- `e2ap_plmn_t` -/
structure E2apPlmn where
  mcc : ℕ
  mnc : ℕ
  mncDigitLen : ℕ
  deriving DecidableEq

/-- `cmp_e2ap_plmn`; the smaller one comes last. -/
def cmpE2apPlmn : E2apPlmn → E2apPlmn → Ordering :=
  compareLex (fun a b => compare b.mcc a.mcc)
    (compareLex (fun a b => compare b.mnc a.mnc) fun a b => compare b.mncDigitLen a.mncDigitLen)

/-- `eq_e2ap_plmn` -/
def eqE2apPlmn (a b : E2apPlmn) : Bool :=
  a.mcc == b.mcc && a.mnc == b.mnc && a.mncDigitLen == b.mncDigitLen

/-- `global_e2_node_id_t`, as the decoder of the setup request builds it: a whole base station has
no CU or DU id, and a DU or CU-UP has one. -/
structure GlobalE2NodeId where
  type : NgranNode
  plmn : E2apPlmn
  nbId : ℕ
  unused : ℕ
  cuDuId : Option ℕ
  decoded : (type = .eNB ∨ type = .gNB) ∧ cuDuId = none ∨
    (type = .gNBDu ∨ type = .gNBCuup) ∧ cuDuId.isSome = true
  deriving DecidableEq

/-- `eq_global_e2_node_id` -/
def eqGlobalE2NodeId (a b : GlobalE2NodeId) : Bool :=
  a.type == b.type && eqE2apPlmn a.plmn b.plmn && (a.nbId == b.nbId && a.unused == b.unused) &&
    if a.type.isCuup || a.type.isDu then a.cuDuId == b.cuDuId else true

/-- `cmp_global_e2_node_id` -/
def cmpGlobalE2NodeId : GlobalE2NodeId → GlobalE2NodeId → Ordering :=
  compareLex (fun a b => compare b.type.toNat a.type.toNat) <|
  compareLex (fun a b => cmpE2apPlmn a.plmn b.plmn) <|
  compareLex (fun a b => compare b.nbId a.nbId) <|
  -- the only field whose smaller value comes first
  compareLex (fun a b => compare a.unused b.unused) fun a b =>
    if a.type.isCu || a.type.isCuup || a.type.isDu then
      compare (b.cuDuId.getD 0) (a.cuDuId.getD 0)
    else .eq

/-- A comparison of two numbers of the values, the smaller one last. -/
theorem transCmp_down {α : Type} (f : α → ℕ) : Std.TransCmp fun a b => compare (f b) (f a) :=
  transCmp_on (fun m n : ℕ => compare n m) f

instance : Std.TransCmp cmpE2apPlmn := by
  have hmcc := transCmp_down E2apPlmn.mcc
  have hmnc := transCmp_down E2apPlmn.mnc
  have hlen := transCmp_down E2apPlmn.mncDigitLen
  unfold cmpE2apPlmn
  infer_instance

@[simp] theorem cmpE2apPlmn_eq_iff {a b : E2apPlmn} : cmpE2apPlmn a b = .eq ↔ a = b := by
  cases a
  cases b
  simp only [cmpE2apPlmn, compareLex, Ordering.then_eq_eq, Nat.compare_eq_eq, E2apPlmn.mk.injEq]
  simp only [eq_comm]

@[simp] theorem eqE2apPlmn_iff {a b : E2apPlmn} : eqE2apPlmn a b = true ↔ a = b := by
  cases a
  cases b
  simp [eqE2apPlmn, and_assoc]

section NodeIds

variable {a b : GlobalE2NodeId}

theorem GlobalE2NodeId.cuDuId_eq_none (h : (a.type.isCuup || a.type.isDu) = false) :
    a.cuDuId = none := by
  rcases a.decoded with ⟨-, hnone⟩ | ⟨htype | htype, -⟩
  · exact hnone
  · rw [htype] at h
    cases h
  · rw [htype] at h
    cases h

theorem GlobalE2NodeId.carries_eq (a : GlobalE2NodeId) :
    (a.type.isCu || a.type.isCuup || a.type.isDu) = (a.type.isCuup || a.type.isDu) := by
  rcases a.decoded with ⟨htype | htype, -⟩ | ⟨htype | htype, -⟩
  all_goals
    rw [htype]
    rfl

/-- The CU or DU ids can be compared whatever the type is. -/
theorem cmpGlobalE2NodeId_eq :
    cmpGlobalE2NodeId =
      compareLex (fun a b => compare b.type.toNat a.type.toNat)
        (compareLex (fun a b => cmpE2apPlmn a.plmn b.plmn)
          (compareLex (fun a b => compare b.nbId a.nbId)
            (compareLex (fun a b => compare a.unused b.unused) fun a b =>
              compare (b.cuDuId.getD 0) (a.cuDuId.getD 0)))) := by
  funext a b
  -- the guard looks at the type of one side only, which decides for both when the types agree
  by_cases htype : a.type = b.type
  · have hlast : (if a.type.isCu || a.type.isCuup || a.type.isDu then
        compare (b.cuDuId.getD 0) (a.cuDuId.getD 0) else .eq) =
          compare (b.cuDuId.getD 0) (a.cuDuId.getD 0) := by
      rw [a.carries_eq]
      split_ifs with hcarries
      · rfl
      · -- neither side has an id
        have ha : a.cuDuId = none := a.cuDuId_eq_none (by simpa using hcarries)
        have hb : b.cuDuId = none := b.cuDuId_eq_none (by simpa [← htype] using hcarries)
        rw [ha, hb]
        rfl
    simp only [cmpGlobalE2NodeId, compareLex, hlast]
  · -- the comparison of the types decides
    have hne : compare b.type.toNat a.type.toNat ≠ .eq := by
      rw [Ne, Nat.compare_eq_eq, NgranNode.toNat_inj]
      exact fun h => htype h.symm
    simp only [cmpGlobalE2NodeId, compareLex]
    cases hcmp : compare b.type.toNat a.type.toNat with
    | lt => rfl
    | eq => exact absurd hcmp hne
    | gt => rfl

instance : Std.TransCmp cmpGlobalE2NodeId := by
  have htype := transCmp_down fun a : GlobalE2NodeId => a.type.toNat
  have hplmn := transCmp_on cmpE2apPlmn GlobalE2NodeId.plmn
  have hnb := transCmp_down GlobalE2NodeId.nbId
  have hunused := transCmp_on (compare : ℕ → ℕ → Ordering) GlobalE2NodeId.unused
  have hid := transCmp_down fun a : GlobalE2NodeId => a.cuDuId.getD 0
  rw [cmpGlobalE2NodeId_eq]
  infer_instance

/-- Two identifiers with the same type have the same kind of CU or DU id. -/
theorem GlobalE2NodeId.cuDuId_eq (htype : a.type = b.type)
    (hid : a.cuDuId.getD 0 = b.cuDuId.getD 0) : a.cuDuId = b.cuDuId := by
  rcases hcarries : a.type.isCuup || a.type.isDu with _ | _
  · rw [a.cuDuId_eq_none hcarries, b.cuDuId_eq_none (htype ▸ hcarries)]
  · have hsome : ∀ c : GlobalE2NodeId, (c.type.isCuup || c.type.isDu) = true →
        ∃ i, c.cuDuId = some i := by
      intro c hc
      rcases c.decoded with ⟨htype | htype, -⟩ | ⟨-, hsome⟩
      · rw [htype] at hc
        cases hc
      · rw [htype] at hc
        cases hc
      · exact Option.isSome_iff_exists.mp hsome
    obtain ⟨i, hi⟩ := hsome a hcarries
    obtain ⟨j, hj⟩ := hsome b (htype ▸ hcarries)
    rw [hi, hj] at hid ⊢
    exact congrArg some hid

@[simp] theorem cmpGlobalE2NodeId_eq_iff : cmpGlobalE2NodeId a b = .eq ↔ a = b := by
  constructor
  · intro h
    simp only [cmpGlobalE2NodeId_eq, compareLex, Ordering.then_eq_eq, Nat.compare_eq_eq,
      NgranNode.toNat_inj, cmpE2apPlmn_eq_iff] at h
    obtain ⟨htype, hplmn, hnb, hunused, hid⟩ := h
    have hcudu := GlobalE2NodeId.cuDuId_eq htype.symm hid.symm
    cases a
    cases b
    simp_all
  · intro h
    rw [h]
    exact Std.ReflCmp.compare_self

@[simp] theorem eqGlobalE2NodeId_iff : eqGlobalE2NodeId a b = true ↔ a = b := by
  constructor
  · intro h
    simp only [eqGlobalE2NodeId, Bool.and_eq_true, beq_iff_eq, eqE2apPlmn_iff] at h
    obtain ⟨⟨⟨htype, hplmn⟩, hnb, hunused⟩, hid⟩ := h
    have hcudu : a.cuDuId = b.cuDuId := by
      split_ifs at hid with hcarries
      · exact beq_iff_eq.mp hid
      · rw [a.cuDuId_eq_none (by simpa using hcarries),
          b.cuDuId_eq_none (by simpa [← htype] using hcarries)]
    cases a
    cases b
    simp_all
  · intro h
    simp [eqGlobalE2NodeId, h]

end NodeIds

/-- The address of a peer in `sctp_info_t`; the rest of the record is never compared. -/
structure SctpInfo where
  sinPort : ℕ
  sAddr : ℕ
  sinFamily : ℕ
  deriving DecidableEq

/-- `cmp_sctp_info_wrapper` -/
def cmpSctpInfo : SctpInfo → SctpInfo → Ordering :=
  compareLex (compareOn (·.sinPort)) (compareLex (compareOn (·.sAddr)) (compareOn (·.sinFamily)))

instance : Std.TransCmp cmpSctpInfo := by
  unfold cmpSctpInfo
  infer_instance

@[simp] theorem cmpSctpInfo_eq_iff {a b : SctpInfo} : cmpSctpInfo a b = .eq ↔ a = b := by
  cases a
  cases b
  simp only [cmpSctpInfo, compareLex, compareOn, Ordering.then_eq_eq, Nat.compare_eq_eq,
    SctpInfo.mk.injEq]

end LlmHric.Flexric
