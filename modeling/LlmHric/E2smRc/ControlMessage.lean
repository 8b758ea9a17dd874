import LlmHric.Library.CText
import LlmHric.Library.Outcome

/-! The RIC sends a control as a tree of RAN parameters: elements, structures and lists. The E2
agent hands the decoded tree to the RAN function, with every array as a pointer and a declared size.
This file models the tree and the two functions that read a single element of it. -/

namespace LlmHric.E2smRc

open Checked CText

/-- A RAN parameter value (9.3.14). Only integers and octet strings are ever read, so the other
kinds keep no content. -/
inductive RanParameterValue
  | boolean
  | integer (v : ℤ)
  | real
  | bitString
  | octetString (ba : CArray UInt8)
  | printableString
  | endValue

mutual

/-- A RAN parameter with its id. -/
inductive SeqRanParam
  | mk (ranParamId : ℕ) (ranParamVal : RanParamVal)

/-- A RAN parameter value type (9.3.11). `none` is the null pointer. -/
inductive RanParamVal
  | flagTrue (v : Option RanParameterValue)
  | flagFalse (v : Option RanParameterValue)
  | strct (s : Option (CArray SeqRanParam))
  | lst (l : Option (CArray LstRanParam))
  | endType

/-- An element of a RAN parameter list: one structure. -/
inductive LstRanParam
  | mk (ranParamStruct : CArray SeqRanParam)

end

namespace SeqRanParam

def ranParamId : SeqRanParam → ℕ
  | mk i _ => i

/-- The value of a parameter. -/
def ranParamVal : SeqRanParam → RanParamVal
  | mk _ v => v

@[simp] theorem ranParamId_mk (i : ℕ) (v : RanParamVal) : (mk i v).ranParamId = i := rfl

@[simp] theorem ranParamVal_mk (i : ℕ) (v : RanParamVal) : (mk i v).ranParamVal = v := rfl

end SeqRanParam

namespace LstRanParam

/-- The structure of a list element. -/
def ranParamStruct : LstRanParam → CArray SeqRanParam
  | mk s => s

@[simp] theorem ranParamStruct_mk (s : CArray SeqRanParam) : (mk s).ranParamStruct = s := rfl

end LstRanParam

/-- An E2SM-RC control message of format 1 (9.2.1.7.1). -/
structure CtrlMsgFrmt1 where
  ranParam : CArray SeqRanParam

/-- `cp_str_to_ba`: the bytes of a C string, without the terminator. -/
def cpStrToBa (str : List UInt8) : CArray UInt8 := .elems (cString str)

/-- `cp_ba_to_str`: a terminated copy of a byte array. The C string it holds ends at the first
zero byte. -/
def cpBaToStr : CArray UInt8 → Outcome (List UInt8)
  | .null 0 => .fault .assertion
  | .null (_ + 1) => .fault .nullPointer
  | .elems [] => .fault .assertion
  | .elems (b :: bs) => .done (cString (b :: bs))

/-- A byte array without bytes to read. -/
def NoBytes (ba : CArray UInt8) : Prop := ba.isNull = true ∨ ba.size = 0

theorem cpBaToStr_eq_done_iff {ba : CArray UInt8} {text : List UInt8} :
    cpBaToStr ba = .done text ↔ ∃ bytes, ba = .elems bytes ∧ bytes ≠ [] ∧ text = cString bytes := by
  rcases ba with (_ | n) | (_ | ⟨b, bs⟩) <;> simp [cpBaToStr, eq_comm]

theorem exists_cpBaToStr_eq_fault_iff {ba : CArray UInt8} :
    (∃ f, cpBaToStr ba = .fault f) ↔ NoBytes ba := by
  rcases ba with (_ | n) | (_ | ⟨b, bs⟩) <;> simp [cpBaToStr, NoBytes]

/-- The value pointer of an element parameter; other kinds of parameters are refused. -/
def elementValue : RanParamVal → Outcome (Option RanParameterValue)
  | .flagTrue v => .done v
  | .flagFalse v => .done v
  | _ => .refused

/-- `get_integer_param`. -/
def getIntegerParam (param : SeqRanParam) (expectedId : ℕ) : Outcome ℤ := do
  Outcome.require (param.ranParamId = expectedId)
  match ← elementValue param.ranParamVal with
  | some (.integer v) => .done v
  | _ => .refused

/-- The text form of an unsigned parameter: a numeral of at most 24 bits. The source reads it with
`strtoul` and does not look at the range error. -/
def octetUint (text : List UInt8) : Outcome ℕ :=
  if (strtoul text).consumed ≠ 0 ∧ text.drop (strtoul text).consumed = [] ∧
      (strtoul text).value ≤ 0xffffff then
    .done (strtoul text).value
  else .refused

/-- `get_octet_uint_param`: an unsigned number of at most 24 bits, as an integer or as text. -/
def getOctetUintParam (param : SeqRanParam) (expectedId : ℕ) : Outcome ℕ := do
  Outcome.require (param.ranParamId = expectedId)
  match ← elementValue param.ranParamVal with
  | some (.integer v) =>
    Outcome.require (0 ≤ v ∧ v ≤ 0xffffff)
    .done v.toNat
  | some (.octetString ba) => do
    -- the copy asserts that there are bytes
    let str ← cpBaToStr ba
    octetUint str
  | _ => .refused

/-! ### What an element carries -/

def IsElement (param : SeqRanParam) (id : ℕ) (v : RanParameterValue) : Prop :=
  param = .mk id (.flagTrue (some v)) ∨ param = .mk id (.flagFalse (some v))

def CarriesInteger (param : SeqRanParam) (id : ℕ) (v : ℤ) : Prop := IsElement param id (.integer v)

/-- The parameter carries an unsigned number of at most 24 bits under the given id, as an integer
or as a numeral in an octet string. -/
def CarriesUint (param : SeqRanParam) (id n : ℕ) : Prop :=
  n ≤ 0xffffff ∧ (IsElement param id (.integer n) ∨
    ∃ bytes, bytes ≠ [] ∧ IsElement param id (.octetString (.elems bytes)) ∧
      Denotes (cString bytes) n)

/-- The parameter is an octet string without bytes under the given id. -/
def NoText (param : SeqRanParam) (id : ℕ) : Prop :=
  ∃ ba, IsElement param id (.octetString ba) ∧ NoBytes ba

theorem isElement_iff {param : SeqRanParam} {id : ℕ} {v : RanParameterValue} :
    IsElement param id v ↔
      param.ranParamId = id ∧ elementValue param.ranParamVal = .done (some v) := by
  rcases param with ⟨i, val⟩
  cases val <;> simp [IsElement, elementValue]

theorem getIntegerParam_eq_done_iff {param : SeqRanParam} {id : ℕ} {v : ℤ} :
    getIntegerParam param id = .done v ↔ CarriesInteger param id v := by
  simp only [getIntegerParam, CarriesInteger, isElement_iff, Outcome.bind_eq_done_iff,
    Outcome.require_eq_done_iff, exists_const]
  refine and_congr_right fun _ => ⟨?_, fun h => ⟨_, h, rfl⟩⟩
  rintro ⟨w, hw, hread⟩
  split at hread
  · rw [hw, Outcome.done.inj hread]
  · cases hread

theorem elementValue_ne_fault {val : RanParamVal} {f : Fault} : elementValue val ≠ .fault f := by
  cases val <;> simp [elementValue]

theorem getIntegerParam_ne_fault {param : SeqRanParam} {id : ℕ} {f : Fault} :
    getIntegerParam param id ≠ .fault f := by
  intro h
  simp only [getIntegerParam, Outcome.bind_eq_fault_iff, Outcome.require_ne_fault,
    elementValue_ne_fault, false_or] at h
  obtain ⟨-, -, w, -, hread⟩ := h
  split at hread <;> cases hread

theorem octetUint_eq_done_iff {text : List UInt8} {n : ℕ} :
    octetUint text = .done n ↔ Denotes text n ∧ n ≤ 0xffffff := by
  unfold octetUint Denotes
  split_ifs with h
  · constructor
    · intro hn
      obtain rfl := Outcome.done.inj hn
      exact ⟨⟨h.1, h.2.1, rfl⟩, h.2.2⟩
    · rintro ⟨⟨-, -, rfl⟩, -⟩
      rfl
  · rw [false_iff]
    rintro ⟨⟨hne, hend, rfl⟩, hle⟩
    exact h ⟨hne, hend, hle⟩

theorem octetUint_ne_fault {text : List UInt8} {f : Fault} : octetUint text ≠ .fault f := by
  unfold octetUint
  split_ifs <;> simp

theorem getOctetUintParam_eq_done_iff {param : SeqRanParam} {id n : ℕ} :
    getOctetUintParam param id = .done n ↔ CarriesUint param id n := by
  simp only [getOctetUintParam, CarriesUint, isElement_iff, Outcome.bind_eq_done_iff,
    Outcome.require_eq_done_iff, exists_const]
  constructor
  · rintro ⟨hid, w, hw, hread⟩
    split at hread
    · next v =>
      simp only [Outcome.bind_eq_done_iff, Outcome.require_eq_done_iff, exists_const,
        Outcome.done.injEq] at hread
      obtain ⟨⟨h0, hmax⟩, rfl⟩ := hread
      refine ⟨by omega, .inl ⟨hid, ?_⟩⟩
      rw [hw, Int.toNat_of_nonneg h0]
    · next ba =>
      simp only [Outcome.bind_eq_done_iff, cpBaToStr_eq_done_iff, octetUint_eq_done_iff] at hread
      obtain ⟨text, ⟨bytes, rfl, hne, rfl⟩, hden, hle⟩ := hread
      exact ⟨hle, .inr ⟨bytes, hne, ⟨hid, hw⟩, hden⟩⟩
    · cases hread
  · rintro ⟨hle, ⟨hid, hw⟩ | ⟨bytes, hne, ⟨hid, hw⟩, hden⟩⟩
    · -- an integer in range
      refine ⟨hid, _, hw, ?_⟩
      have hrange : (0 : ℤ) ≤ n ∧ (n : ℤ) ≤ 0xffffff := by omega
      simpa using hrange.2
    · -- the text of a numeral
      refine ⟨hid, _, hw, ?_⟩
      simp only [Outcome.bind_eq_done_iff, cpBaToStr_eq_done_iff, octetUint_eq_done_iff]
      exact ⟨_, ⟨bytes, rfl, hne, rfl⟩, hden, hle⟩

theorem exists_getOctetUintParam_eq_fault_iff {param : SeqRanParam} {id : ℕ} :
    (∃ f, getOctetUintParam param id = .fault f) ↔ NoText param id := by
  simp only [getOctetUintParam, NoText, isElement_iff, Outcome.bind_eq_fault_iff,
    Outcome.require_ne_fault, elementValue_ne_fault, Outcome.require_eq_done_iff, exists_const,
    false_or, ← exists_cpBaToStr_eq_fault_iff]
  constructor
  · rintro ⟨f, hid, w, hw, hread⟩
    split at hread
    · simp at hread
    · next ba =>
      simp only [Outcome.bind_eq_fault_iff, octetUint_ne_fault, and_false, exists_false,
        or_false] at hread
      exact ⟨ba, ⟨hid, hw⟩, f, hread⟩
    · cases hread
  · rintro ⟨ba, ⟨hid, hw⟩, f, hf⟩
    exact ⟨f, hid, _, hw, Outcome.bind_eq_fault_iff.mpr (.inl hf)⟩

end LlmHric.E2smRc
