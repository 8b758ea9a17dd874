import LlmHric.Library.CText

/-! JSON by its bytes: the tokens with everything that is free in how they are written (white space,
escapes, the forms of a number), and the values that they stand for. Flat objects are trees, so that
their members can be spoken about; the texts of nested values are derived by the grammar. -/

namespace JsonText

open CText

/-- White space. -/
def isWs (c : UInt8) : Bool := c == 32 || c == 9 || c == 10 || c == 13

/-- White space between tokens. -/
structure Ws where
  text : List UInt8
  isWs_of_mem : ∀ c ∈ text, isWs c = true

theorem isSpace_of_isWs {c : UInt8} (h : isWs c = true) : isSpace c = true := by
  simp only [isWs, Bool.or_eq_true, beq_iff_eq] at h
  rcases h with ((rfl | rfl) | rfl) | rfl <;> decide

/-! ### Strings -/

/-- The characters that are escaped by one character. -/
inductive Escape
  | quote | backslash | slash | b | f | n | r | t
  deriving DecidableEq

namespace Escape

/-- What follows the backslash. -/
def text : Escape → UInt8
  | quote => byte '"'
  | backslash => byte '\\'
  | slash => byte '/'
  | b => byte 'b'
  | f => byte 'f'
  | n => byte 'n'
  | r => byte 'r'
  | t => byte 't'

/-- The character that is escaped. -/
def value : Escape → UInt8
  | quote => byte '"'
  | backslash => byte '\\'
  | slash => byte '/'
  | b => 8
  | f => 12
  | n => 10
  | r => 13
  | t => 9

end Escape

/-- A hexadecimal digit. -/
structure HexDigit where
  text : UInt8
  isDigitOf : isDigitOf 16 text = true

/-- A character of a string. -/
inductive JsonChar
  | plain (c : UInt8) (h : 32 ≤ c ∧ c ≠ byte '"' ∧ c ≠ byte '\\')
  | escape (e : Escape)
  | unicode (a b c d : HexDigit)

/-- The bytes of a character. -/
def JsonChar.text : JsonChar → List UInt8
  | plain c _ => [c]
  | escape e => [byte '\\', e.text]
  | unicode a b c d => [byte '\\', byte 'u', a.text, b.text, c.text, d.text]

/-- The number of a unicode escape. -/
def hexValue (a b c d : HexDigit) : ℕ := ofDigits 16 [a.text, b.text, c.text, d.text]

def utf8 (n : ℕ) : List UInt8 :=
  if n < 0x80 then [UInt8.ofNat n]
  else if n < 0x800 then [UInt8.ofNat (0xc0 + n / 64), UInt8.ofNat (0x80 + n % 64)]
  else if n < 0x10000 then
    [UInt8.ofNat (0xe0 + n / 4096), UInt8.ofNat (0x80 + n / 64 % 64), UInt8.ofNat (0x80 + n % 64)]
  else
    [UInt8.ofNat (0xf0 + n / 262144), UInt8.ofNat (0x80 + n / 4096 % 64),
      UInt8.ofNat (0x80 + n / 64 % 64), UInt8.ofNat (0x80 + n % 64)]

/-- The characters between the quotes. -/
abbrev JsonString := List JsonChar

namespace JsonString

/-- The bytes between the quotes. -/
def text (s : JsonString) : List UInt8 := s.flatMap JsonChar.text

/-- The token. -/
def quoted (s : JsonString) : List UInt8 := byte '"' :: (text s ++ [byte '"'])

/-- The string that is meant. Two escaped halves of a surrogate pair are one character. -/
def value : JsonString → List UInt8
  | [] => []
  | .plain c _ :: s => c :: value s
  | .escape e :: s => e.value :: value s
  | .unicode a b c d :: .unicode a' b' c' d' :: s =>
    let high := hexValue a b c d
    let low := hexValue a' b' c' d'
    if 0xd800 ≤ high ∧ high < 0xdc00 ∧ 0xdc00 ≤ low ∧ low < 0xe000 then
      utf8 (0x10000 + (high - 0xd800) * 0x400 + (low - 0xdc00)) ++ value s
    else utf8 high ++ value (.unicode a' b' c' d' :: s)
  | .unicode a b c d :: s => utf8 (hexValue a b c d) ++ value s

@[simp] theorem text_nil : text [] = [] := rfl

@[simp] theorem text_cons (c : JsonChar) (s : JsonString) : text (c :: s) = c.text ++ text s :=
  List.flatMap_cons

/-- A string without escapes is written as it is. -/
theorem value_eq_text {s : JsonString} (h : byte '\\' ∉ text s) : value s = text s := by
  induction s with
  | nil => rfl
  | cons c s ih =>
    rw [text_cons, List.mem_append, not_or] at h
    cases c with
    | plain c hc => rw [value, ih h.2, text_cons, JsonChar.text, List.singleton_append]
    | escape e => exact absurd (List.mem_cons_self ..) h.1
    | unicode a b c d => exact absurd (List.mem_cons_self ..) h.1

end JsonString

/-! ### Numbers -/

/-- Digits, at least one. -/
structure Digits where
  text : List UInt8
  isDigit_of_mem : ∀ c ∈ text, isDigit c = true
  ne_nil : text ≠ []

/-- An exponent, with its letter and its sign. -/
structure Exponent where
  upper : Bool
  sign : Option Bool
  digits : Digits

/-- A number. A zero is not followed by other digits of the integer part. -/
structure JsonNumber where
  negative : Bool
  int : Digits
  int_of_zero : int.text.head? = some (byte '0') → int.text = [byte '0']
  frac : Option Digits
  exp : Option Exponent

/-- The bytes of an exponent. -/
def Exponent.text (e : Exponent) : List UInt8 :=
  (if e.upper then byte 'E' else byte 'e') ::
    ((match e.sign with
      | none => []
      | some true => [byte '-']
      | some false => [byte '+']) ++ e.digits.text)

def Exponent.value (e : Exponent) : ℤ :=
  if e.sign = some true then -(ofDigits 10 e.digits.text : ℤ) else ofDigits 10 e.digits.text

namespace JsonNumber

variable (n : JsonNumber)

/-- The sign and the integer part. -/
def intText : List UInt8 := (if n.negative then [byte '-'] else []) ++ n.int.text

/-- What follows the integer part. -/
def tailText : List UInt8 :=
  (n.frac.elim [] fun d => byte '.' :: d.text) ++ n.exp.elim [] Exponent.text

/-- The token. -/
def text : List UInt8 := n.intText ++ n.tailText

/-- The integer part. -/
def intPart : ℤ := if n.negative then -(ofDigits 10 n.int.text : ℤ) else ofDigits 10 n.int.text

/-- The number that is meant. -/
def value : ℚ :=
  let fracText := n.frac.elim [] Digits.text
  let mantissa : ℚ := ofDigits 10 (n.int.text ++ fracText)
  (if n.negative then -mantissa else mantissa) *
    (10 : ℚ) ^ ((n.exp.elim 0 Exponent.value) - (fracText.length : ℤ))

/-- The number, if it is an integer. -/
def int? : Option ℤ := if n.value.den = 1 then some n.value.num else none

/-- A number without fraction and exponent is its integer part. -/
theorem value_of_int (hfrac : n.frac = none) (hexp : n.exp = none) : n.value = n.intPart := by
  rw [value, intPart, hfrac, hexp]
  simp only [Option.elim_none, List.append_nil, List.length_nil, Nat.cast_zero, sub_zero, zpow_zero,
    mul_one]
  split_ifs <;> push_cast <;> rfl

theorem int?_of_value (h : n.value = n.intPart) : n.int? = some n.intPart := by
  rw [int?, h, if_pos (Rat.den_intCast ..), Rat.num_intCast]

end JsonNumber

/-! ### Objects -/

/-- A value without parts. -/
inductive Scalar
  | null
  | bool (b : Bool)
  | number (n : JsonNumber)
  | string (s : JsonString)

def Scalar.text : Scalar → List UInt8
  | null => ascii "null"
  | bool true => ascii "true"
  | bool false => ascii "false"
  | number n => n.text
  | string s => s.quoted

/-- A member of a flat object, with the white space around its tokens. -/
structure FlatMember where
  beforeKey : Ws
  key : JsonString
  afterKey : Ws
  beforeValue : Ws
  value : Scalar
  afterValue : Ws

/-- What follows the colon. -/
def FlatMember.valueText (m : FlatMember) : List UInt8 :=
  m.beforeValue.text ++ (m.value.text ++ m.afterValue.text)

def FlatMember.text (m : FlatMember) : List UInt8 :=
  m.beforeKey.text ++ (m.key.quoted ++ (m.afterKey.text ++ byte ':' :: m.valueText))

/-- An object whose members are scalars; white space is all that an empty one has. -/
structure FlatObject where
  members : List FlatMember
  inner : Ws

def commaText : List (List UInt8) → List UInt8
  | [] => []
  | [t] => t
  | t :: t' :: ts => t ++ byte ',' :: commaText (t' :: ts)

def FlatObject.text (o : FlatObject) : List UInt8 :=
  byte '\x7b' ::
    ((if o.members = [] then o.inner.text else commaText (o.members.map FlatMember.text)) ++
    [byte '\x7d'])

/-- The value of the first member of a name. -/
def FlatObject.lookup (o : FlatObject) (name : List UInt8) : Option Scalar :=
  (o.members.find? fun m => m.key.value = name).map FlatMember.value

/-- What a text stands for. -/
inductive Nonterminal
  | value | elements | members

/-- The texts of values, of the elements of an array and of the members of an object. -/
inductive Derives : Nonterminal → List UInt8 → Prop
  | scalar (v : Scalar) : Derives .value v.text
  | emptyArray (ws : Ws) : Derives .value (byte '[' :: (ws.text ++ [byte ']']))
  | array {t : List UInt8} : Derives .elements t → Derives .value (byte '[' :: (t ++ [byte ']']))
  | emptyObject (ws : Ws) : Derives .value (byte '\x7b' :: (ws.text ++ [byte '\x7d']))
  | object {t : List UInt8} : Derives .members t →
      Derives .value (byte '\x7b' :: (t ++ [byte '\x7d']))
  | element {t : List UInt8} (ws ws' : Ws) : Derives .value t →
      Derives .elements (ws.text ++ (t ++ ws'.text))
  | elements {t t' : List UInt8} : Derives .elements t → Derives .elements t' →
      Derives .elements (t ++ byte ',' :: t')
  | member {t : List UInt8} (ws : Ws) (key : JsonString) (ws' before after : Ws) :
    Derives .value t →
      Derives .members (ws.text ++ (key.quoted ++ (ws'.text ++ byte ':' ::
        (before.text ++ (t ++ after.text)))))
  | members {t t' : List UInt8} : Derives .members t → Derives .members t' →
      Derives .members (t ++ byte ',' :: t')

/-! ### No zero bytes -/

theorem Ws.zero_notMem (ws : Ws) : 0 ∉ ws.text := by
  intro h
  exact absurd (ws.isWs_of_mem 0 h) (by decide)

theorem HexDigit.text_ne_zero (d : HexDigit) : d.text ≠ 0 := by
  intro h
  have := d.isDigitOf
  rw [h, isDigitOf_zero] at this
  cases this

theorem JsonChar.zero_notMem (c : JsonChar) : 0 ∉ c.text := by
  cases c with
  | plain c h =>
    intro hmem
    obtain rfl : 0 = c := List.mem_singleton.mp hmem
    exact absurd h.1 (by decide)
  | escape e => cases e <;> decide
  | unicode a b c d =>
    simp only [text, List.mem_cons, List.not_mem_nil, or_false, not_or]
    exact ⟨by decide, by decide, a.text_ne_zero.symm, b.text_ne_zero.symm, c.text_ne_zero.symm,
      d.text_ne_zero.symm⟩

theorem JsonString.zero_notMem_quoted (s : JsonString) : 0 ∉ s.quoted := by
  have hquote : (0 : UInt8) ≠ byte '"' := by decide
  have htext : 0 ∉ s.text := by
    intro h
    obtain ⟨c, -, hc⟩ := List.mem_flatMap.mp h
    exact c.zero_notMem hc
  simp [quoted, hquote, htext]

theorem Digits.zero_notMem (d : Digits) : 0 ∉ d.text := by
  intro h
  exact absurd (d.isDigit_of_mem 0 h) (by decide)

theorem JsonNumber.zero_notMem (n : JsonNumber) : 0 ∉ n.text := by
  have hint := n.int.zero_notMem
  have hsign : 0 ∉ (if n.negative then [byte '-'] else []) := by
    split_ifs <;> decide
  have hfrac : 0 ∉ n.frac.elim [] fun d => byte '.' :: d.text := by
    cases n.frac with
    | none => exact List.not_mem_nil
    | some d =>
      have hpoint : (0 : UInt8) ≠ byte '.' := by decide
      simp [hpoint, d.zero_notMem]
  have hexp : 0 ∉ n.exp.elim [] Exponent.text := by
    cases n.exp with
    | none => exact List.not_mem_nil
    | some e =>
      obtain ⟨upper, sign, digits⟩ := e
      have hletters : (0 : UInt8) ≠ byte 'E' ∧ (0 : UInt8) ≠ byte 'e' ∧ (0 : UInt8) ≠ byte '-' ∧
          (0 : UInt8) ≠ byte '+' := by decide
      obtain ⟨hE, he, hminus, hplus⟩ := hletters
      cases upper <;> rcases sign with _ | _ | _ <;>
        simp [Exponent.text, hE, he, hminus, hplus, digits.zero_notMem]
  simp only [text, intText, tailText, List.mem_append, not_or]
  exact ⟨⟨hsign, hint⟩, hfrac, hexp⟩

theorem Scalar.zero_notMem (v : Scalar) : 0 ∉ v.text := by
  cases v with
  | null => decide
  | bool b => cases b <;> decide
  | number n => exact n.zero_notMem
  | string s => exact s.zero_notMem_quoted

theorem zero_ne_punctuation : (0 : UInt8) ≠ byte '[' ∧ (0 : UInt8) ≠ byte ']' ∧
    (0 : UInt8) ≠ byte '\x7b' ∧ (0 : UInt8) ≠ byte '\x7d' ∧ (0 : UInt8) ≠ byte ',' ∧
      (0 : UInt8) ≠ byte ':' := by decide

theorem FlatMember.zero_notMem (m : FlatMember) : 0 ∉ m.text := by
  obtain ⟨-, -, -, -, -, hcolon⟩ := zero_ne_punctuation
  simp [text, valueText, Ws.zero_notMem, JsonString.zero_notMem_quoted, Scalar.zero_notMem, hcolon]

theorem zero_notMem_commaText {ts : List (List UInt8)} (h : ∀ t ∈ ts, 0 ∉ t) :
    0 ∉ commaText ts := by
  obtain ⟨-, -, -, -, hcomma, -⟩ := zero_ne_punctuation
  fun_induction commaText ts with
  | case1 => exact List.not_mem_nil
  | case2 t => exact h t (List.mem_singleton_self t)
  | case3 t t' ts ih =>
    have ht := h t (List.mem_cons_self ..)
    have hts := ih fun u hu => h u (List.mem_cons_of_mem _ hu)
    simp [ht, hts, hcomma]

theorem FlatObject.zero_notMem (o : FlatObject) : 0 ∉ o.text := by
  obtain ⟨-, -, hopen, hclose, -⟩ := zero_ne_punctuation
  have hbody : 0 ∉ if o.members = [] then o.inner.text
      else commaText (o.members.map FlatMember.text) := by
    split_ifs
    · exact o.inner.zero_notMem
    · apply zero_notMem_commaText
      intro t ht
      obtain ⟨m, -, rfl⟩ := List.mem_map.mp ht
      exact m.zero_notMem
  simp only [text, List.mem_cons, List.mem_append, not_or]
  exact ⟨hopen, hbody, hclose, List.not_mem_nil⟩

theorem Derives.zero_notMem {k : Nonterminal} {t : List UInt8} (h : Derives k t) : 0 ∉ t := by
  obtain ⟨hopen, hclose, hopen', hclose', hcomma, hcolon⟩ := zero_ne_punctuation
  induction h with
  | scalar v => exact v.zero_notMem
  | emptyArray ws => simp [ws.zero_notMem, hopen, hclose]
  | array _ ih => simp [ih, hopen, hclose]
  | emptyObject ws => simp [ws.zero_notMem, hopen', hclose']
  | object _ ih => simp [ih, hopen', hclose']
  | element ws ws' _ ih => simp [ws.zero_notMem, ws'.zero_notMem, ih]
  | elements _ _ ih ih' => simp [ih, ih', hcomma]
  | member ws key ws' before after _ ih =>
    simp [ws.zero_notMem, key.zero_notMem_quoted, ws'.zero_notMem, before.zero_notMem,
      after.zero_notMem, ih, hcolon]
  | members _ _ ih ih' => simp [ih, ih', hcomma]

/-! ### Integers read by the C library -/

/-- The character is not part of a numeral that has begun. -/
def EndsNumeral (c : UInt8) : Prop := isDigitOf 10 c = false ∧ c ≠ 120 ∧ c ≠ 88

theorem isDigitOf_ten_of_isDigit {c : UInt8} (h : isDigit c = true) : isDigitOf 10 c = true := by
  rw [isDigit, Bool.and_eq_true, decide_eq_true_eq, decide_eq_true_eq] at h
  obtain ⟨hlo, hhi⟩ := h
  rw [UInt8.le_iff_toNat_le] at hlo hhi
  have hlo' : 48 ≤ c.toNat := hlo
  have hhi' : c.toNat ≤ 57 := hhi
  have hdigit : digitVal c = some (c.toNat - 48) := by
    rw [digitVal, if_pos ⟨UInt8.le_iff_toNat_le.mpr hlo, UInt8.le_iff_toNat_le.mpr hhi⟩]
  rw [isDigitOf, hdigit]
  simp only [decide_eq_true_eq]
  omega

theorem isDigitOf_eight_of_isDigitOf_ten {c : UInt8} (h : isDigitOf 10 c = false) :
    isDigitOf 8 c = false := by
  rw [isDigitOf] at h ⊢
  cases hdigit : digitVal c with
  | none => rfl
  | some d =>
    rw [hdigit] at h
    simp only [decide_eq_false_iff_not] at h ⊢
    omega

theorem takeWhile_append_tail {p : UInt8 → Bool} {xs tail : List UInt8}
    (hxs : ∀ c ∈ xs, p c = true) (htail : ∀ c, tail.head? = some c → p c = false) :
    (xs ++ tail).takeWhile p = xs := by
  rw [List.takeWhile_append_of_pos hxs]
  cases tail with
  | nil => rw [List.takeWhile_nil, List.append_nil]
  | cons c tail => rw [List.takeWhile_cons_of_neg (by rw [htail c rfl]; exact Bool.false_ne_true),
      List.append_nil]

/-- With base 0 the integer part of a number is read in base 10, except that a zero is octal. -/
theorem readBase_int (n : JsonNumber) {tail : List UInt8}
    (htail : ∀ c, tail.head? = some c → EndsNumeral c) :
    let based := readBase (n.int.text ++ tail)
    based.2.1 = 0 ∧ based.2.2.takeWhile (isDigitOf based.1) = n.int.text ∧
      ofDigits based.1 n.int.text = ofDigits 10 n.int.text := by
  have hten : (n.int.text ++ tail).takeWhile (isDigitOf 10) = n.int.text :=
    takeWhile_append_tail (fun c hc => isDigitOf_ten_of_isDigit (n.int.isDigit_of_mem c hc))
      fun c hc => (htail c hc).1
  by_cases hzero : n.int.text.head? = some (byte '0')
  · -- a zero is not followed by the letter of a hexadecimal numeral
    have hint := n.int_of_zero hzero
    rw [hint]
    have hbase : readBase ([byte '0'] ++ tail) = (8, 0, [byte '0'] ++ tail) := by
      rcases tail with _ | ⟨x, _ | ⟨d, tail⟩⟩
      · rfl
      · rfl
      · have hx := htail x rfl
        have hhex : ¬ ((x = 120 ∨ x = 88) ∧ isDigitOf 16 d = true) :=
          fun h => h.1.elim hx.2.1 hx.2.2
        have hbyte : byte '0' = 48 := rfl
        rw [List.singleton_append, readBase, if_pos hbyte, if_neg hhex]
    rw [hbase]
    refine ⟨rfl, ?_, rfl⟩
    apply takeWhile_append_tail
    · intro c hc
      obtain rfl := List.mem_singleton.mp hc
      rfl
    · exact fun c hc => isDigitOf_eight_of_isDigitOf_ten (htail c hc).1
  · obtain ⟨c, ds, hcons⟩ := List.exists_cons_of_ne_nil n.int.ne_nil
    have hc : c ≠ 48 := by
      rintro rfl
      exact hzero (by rw [hcons]; rfl)
    have hbase : readBase (n.int.text ++ tail) = (10, 0, n.int.text ++ tail) := by
      rw [hcons, List.cons_append]
      rcases ds ++ tail with _ | ⟨x, _ | ⟨d, s⟩⟩
      · exact if_neg hc
      · exact if_neg hc
      · exact if_neg hc
    rw [hbase]
    exact ⟨rfl, hten, rfl⟩

theorem isDigit_head_int (n : JsonNumber) : ∃ c ds, n.int.text = c :: ds ∧ isDigit c = true := by
  obtain ⟨c, ds, hcons⟩ := List.exists_cons_of_ne_nil n.int.ne_nil
  exact ⟨c, ds, hcons, n.int.isDigit_of_mem c (hcons ▸ List.mem_cons_self ..)⟩

theorem readSign_intText (n : JsonNumber) (tail : List UInt8) :
    readSign (n.intText ++ tail) =
      (n.negative, (if n.negative then 1 else 0), n.int.text ++ tail) := by
  rw [JsonNumber.intText]
  split_ifs with hneg
  · rw [hneg]
    rfl
  · rw [Bool.not_eq_true] at hneg
    obtain ⟨c, ds, hcons, hdigit⟩ := isDigit_head_int n
    have hminus : c ≠ 45 := by
      rintro rfl
      exact absurd hdigit (by decide)
    have hplus : c ≠ 43 := by
      rintro rfl
      exact absurd hdigit (by decide)
    rw [hneg, hcons]
    exact (if_neg hminus).trans (if_neg hplus)

theorem isSpace_of_isDigit {c : UInt8} (h : isDigit c = true) : isSpace c = false := by
  rw [isDigit, Bool.and_eq_true, decide_eq_true_eq, decide_eq_true_eq] at h
  have hlo : 48 ≤ c.toNat := UInt8.le_iff_toNat_le.mp h.1
  rw [isSpace, Bool.or_eq_false_iff, Bool.and_eq_false_iff, beq_eq_false_iff_ne,
    decide_eq_false_iff_not, decide_eq_false_iff_not]
  constructor
  · rintro rfl
    exact absurd hlo (by decide)
  · right
    rw [UInt8.le_iff_toNat_le]
    change ¬ c.toNat ≤ 13
    omega

theorem intText_head (n : JsonNumber) : ∃ c ds, n.intText = c :: ds ∧ isSpace c = false := by
  rw [JsonNumber.intText]
  split_ifs
  · exact ⟨byte '-', n.int.text, rfl, rfl⟩
  · obtain ⟨c, ds, hcons, hdigit⟩ := isDigit_head_int n
    exact ⟨c, ds, hcons, isSpace_of_isDigit hdigit⟩

theorem length_intText (n : JsonNumber) :
    n.intText.length = (if n.negative then 1 else 0) + n.int.text.length := by
  rw [JsonNumber.intText, List.length_append]
  split_ifs <;> rfl

/-- The library reads the integer part of a number, and stops behind it. -/
theorem readNumeral_number (n : JsonNumber) {tail : List UInt8}
    (htail : ∀ c, tail.head? = some c → EndsNumeral c) :
    readNumeral (n.intText ++ tail) =
      some ⟨n.negative, ofDigits 10 n.int.text, n.intText.length⟩ := by
  obtain ⟨c, ds, hcons, hspace⟩ := intText_head n
  have hskip : skipWs (n.intText ++ tail) = n.intText ++ tail := by
    rw [skipWs, hcons, List.cons_append, List.dropWhile_cons_of_neg (by rw [hspace]; decide)]
  have hnone : (n.intText ++ tail).takeWhile isSpace = [] := by
    rw [hcons, List.cons_append, List.takeWhile_cons_of_neg (by rw [hspace]; decide)]
  obtain ⟨hmarker, hdigits, hvalue⟩ := readBase_int n htail
  rw [readNumeral, hskip, readSign_intText]
  dsimp only
  rw [hmarker, hdigits, hvalue, if_neg n.int.ne_nil, hnone, length_intText]
  simp

end JsonText
