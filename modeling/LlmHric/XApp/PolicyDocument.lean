import LlmHric.Library.JsonText
import LlmHric.XApp.SlicePolicyFile

/-! A policy file is a JSON document with an array of flat objects under the name `policies`. What
the file means is said here by its members, without regard to how the xApp searches the text, and so
is which ways of writing the document the searches are made for. -/

namespace LlmHric.XApp

open CText JsonText

/-! ### What a document means -/

/-- A string member that fits into the buffer. -/
def scalarString (outLen : ℕ) : Scalar → Option (List UInt8)
  | .string s => if s.value.length < outLen then some s.value else none
  | _ => none

/-- An integer member of 32 bits. -/
def scalarInt : Scalar → Option ℤ
  | .number n => n.int?.filter fun v => -2 ^ 31 ≤ v ∧ v ≤ 2 ^ 31 - 1
  | _ => none

/-- A string member, or an integer member as a text. -/
def scalarStringOrInt (outLen : ℕ) (v : Scalar) : Option (List UInt8) :=
  match scalarString outLen v with
  | some str => some str
  | none => do
    let value ← scalarInt v
    if (decimal value).length < outLen then some (decimal value) else none

/-- The fields that the members of an object give, before validation. -/
def entryOfObject (o : FlatObject) : Option SlicePolicyCfg := do
  let plmn ← (o.lookup (ascii "plmn")).bind (scalarString 8)
  let sst ← (o.lookup (ascii "sst")).bind (scalarStringOrInt 8)
  let sd ← (o.lookup (ascii "sd")).bind (scalarStringOrInt 16)
  let minPrb ← (o.lookup (ascii "min_prb")).bind scalarInt
  let maxPrb ← (o.lookup (ascii "max_prb")).bind scalarInt
  let dedicatedPrb ← (o.lookup (ascii "dedicated_prb")).bind scalarInt
  some { plmn, sst, sd, minPrb, maxPrb, dedicatedPrb }

def policyOfObject (o : FlatObject) : Option SlicePolicyCfg :=
  (entryOfObject o).filter validatePolicy

/-- An element of the array, with the white space around it. -/
structure PolicyElement where
  before : Ws
  object : FlatObject
  after : Ws

def PolicyElement.text (e : PolicyElement) : List UInt8 :=
  e.before.text ++ (e.object.text ++ e.after.text)

/-- A document whose top-level object has an array of flat objects among its members. -/
structure PolicyDocument where
  lead : Ws
  before : List UInt8
  before_derives : before = [] ∨ ∃ t, Derives .members t ∧ before = t ++ [byte ',']
  beforeKey : Ws
  key : JsonString
  key_value : key.value = ascii "policies"
  afterKey : Ws
  beforeArray : Ws
  elements : List PolicyElement
  inner : Ws
  afterArray : Ws
  after : List UInt8
  after_derives : after = [] ∨ ∃ t, Derives .members t ∧ after = byte ',' :: t
  trail : Ws

namespace PolicyDocument

variable (doc : PolicyDocument)

/-- The text up to the name of the array. -/
def head : List UInt8 := doc.lead.text ++ byte '\x7b' :: (doc.before ++ doc.beforeKey.text)

/-- The text between the brackets. -/
def arrayText : List UInt8 :=
  if doc.elements = [] then doc.inner.text else commaText (doc.elements.map PolicyElement.text)

/-- The text behind the array. -/
def rest : List UInt8 :=
  doc.afterArray.text ++ (doc.after ++ byte '\x7d' :: doc.trail.text)

/-- The bytes of the file. -/
def text : List UInt8 :=
  doc.head ++ (doc.key.quoted ++ (doc.afterKey.text ++ byte ':' :: (doc.beforeArray.text ++
    byte '[' :: (doc.arrayText ++ byte ']' :: doc.rest))))

/-- The policies of the array: there is one at least, all are valid, and the shares that they
dedicate are not more than there is. -/
def policies : Option (List SlicePolicyCfg) := do
  let policies ← doc.elements.mapM fun e => policyOfObject e.object
  if policies ≠ [] ∧ (policies.map SlicePolicyCfg.dedicatedPrb).sum ≤ 100 then some policies
  else none

end PolicyDocument

/-! ### Texts that the searches are made for -/

/-- The last character of a string is not an escaped backslash, which would escape the quote behind
it in the eyes of the search for the closing brace. -/
def ShowsEnd (s : JsonString) : Prop := s.text.getLast? ≠ some (byte '\\')

/-- The strings of an object show where they end. -/
def BracesMatch (o : FlatObject) : Prop :=
  ∀ m ∈ o.members, ShowsEnd m.key ∧ ∀ s, m.value = .string s → ShowsEnd s

/-- Up to the member of a name, no name ends in a quote and that name; and the member has its name
written without escapes. -/
def FindsOwn (name : List UInt8) : List FlatMember → Prop
  | [] => True
  | m :: ms =>
    if m.key.value = name then m.key.text = name
    else ¬ (byte '"' :: name) <:+ m.key.text ∧ FindsOwn name ms

instance decidableFindsOwn (name : List UInt8) : ∀ ms, Decidable (FindsOwn name ms)
  | [] => .isTrue trivial
  | m :: ms =>
    have := decidableFindsOwn name ms
    inferInstanceAs (Decidable (if m.key.value = name then m.key.text = name
      else ¬ (byte '"' :: name) <:+ m.key.text ∧ FindsOwn name ms))

/-- A string is written without escapes. -/
def ShowsString (v : Scalar) : Prop := ∀ s, v = .string s → byte '\\' ∉ s.text

/-- A number is its integer part. -/
def ShowsInt (v : Scalar) : Prop := ∀ n, v = .number n → n.value = n.intPart

/-- The six fields of an entry. -/
inductive Field
  | plmn | sst | sd | minPrb | maxPrb | dedicatedPrb

namespace Field

/-- The name of the member. -/
def name : Field → List UInt8
  | plmn => ascii "plmn"
  | sst => ascii "sst"
  | sd => ascii "sd"
  | minPrb => ascii "min_prb"
  | maxPrb => ascii "max_prb"
  | dedicatedPrb => ascii "dedicated_prb"

/-- The member has a value for the field. -/
def Given (o : FlatObject) : Field → Prop
  | plmn => ((o.lookup (ascii "plmn")).bind (scalarString 8)).isSome
  | sst => ((o.lookup (ascii "sst")).bind (scalarStringOrInt 8)).isSome
  | sd => ((o.lookup (ascii "sd")).bind (scalarStringOrInt 16)).isSome
  | minPrb => ((o.lookup (ascii "min_prb")).bind scalarInt).isSome
  | maxPrb => ((o.lookup (ascii "max_prb")).bind scalarInt).isSome
  | dedicatedPrb => ((o.lookup (ascii "dedicated_prb")).bind scalarInt).isSome

/-- The value is written in the way that is read for the field. -/
def Shows : Field → Scalar → Prop
  | plmn, v => ShowsString v
  | sst, v => ShowsString v ∧ ShowsInt v
  | sd, v => ShowsString v ∧ ShowsInt v
  | minPrb, v => ShowsInt v
  | maxPrb, v => ShowsInt v
  | dedicatedPrb, v => ShowsInt v

end Field

/-- The member of a field is found under its name, and its value is written in the way that is
read. -/
def FieldReadable (o : FlatObject) (f : Field) : Prop :=
  FindsOwn f.name o.members ∧ ∀ v, o.lookup f.name = some v → f.Shows v

/-- The fields are readable up to the first one that has no value. -/
def FieldsReadable (o : FlatObject) : List Field → Prop
  | [] => True
  | f :: fs => FieldReadable o f ∧ (f.Given o → FieldsReadable o fs)

/-- The searches are made for the text of the object. -/
def ObjectReadable (o : FlatObject) : Prop :=
  BracesMatch o ∧ FieldsReadable o [.plmn, .sst, .sd, .minPrb, .maxPrb, .dedicatedPrb]

/-- The elements are readable up to the first one that is refused, for itself or for the sum of the
shares that are dedicated so far. -/
def ElementsReadable (sum : ℤ) : List PolicyElement → Prop
  | [] => True
  | e :: es =>
    ObjectReadable e.object ∧ ∀ cfg, policyOfObject e.object = some cfg →
      sum + cfg.dedicatedPrb ≤ 100 → ElementsReadable (sum + cfg.dedicatedPrb) es

/-- The quoted name of the array stands in the text for the first time where the array has it, the
elements are readable, and nothing behind an empty array looks like one. -/
structure PolicyDocument.Readable (doc : PolicyDocument) : Prop where
  key_text : doc.key.text = ascii "policies"
  first : ¬ ascii "\"policies\"" <:+: doc.head
  elements : ElementsReadable 0 doc.elements
  behind_empty : doc.elements = [] → byte '\x7b' ∉ doc.rest

end LlmHric.XApp
