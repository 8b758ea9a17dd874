import Mathlib

/-! A C string is the list of its bytes before the terminator. This file defines the parts of the C
library that read numbers from strings with base 0 (decimal, octal after `0`, hexadecimal after
`0x`), following the C11 description of `strtoul` and `strtol`. -/

namespace CText

/-- Bytes of an ASCII literal. -/
def ascii (s : String) : List UInt8 := s.toList.map fun c => c.toNat.toUInt8

def byte (c : Char) : UInt8 := c.toNat.toUInt8

/-- The string stored in a buffer: everything before the first terminator. -/
def cString (buf : List UInt8) : List UInt8 := buf.takeWhile (· ≠ 0)

theorem cString_eq_self {buf : List UInt8} (h : ∀ c ∈ buf, c ≠ 0) : cString buf = buf := by
  rw [cString, List.takeWhile_eq_self_iff]
  simpa using h

/-- `isspace` in the C locale. -/
def isSpace (c : UInt8) : Bool := c == 32 || (9 ≤ c && c ≤ 13)

/-- `isdigit`. -/
def isDigit (c : UInt8) : Bool := 48 ≤ c && c ≤ 57

/-- Skip leading white space. -/
def skipWs (s : List UInt8) : List UInt8 := s.dropWhile isSpace

/-- The value of a character as a digit, in bases up to 36. -/
def digitVal (c : UInt8) : Option ℕ :=
  if 48 ≤ c ∧ c ≤ 57 then some (c.toNat - 48)
  else if 97 ≤ c ∧ c ≤ 122 then some (c.toNat - 87)
  else if 65 ≤ c ∧ c ≤ 90 then some (c.toNat - 55)
  else none

/-- Whether a character is a digit of `base`. -/
def isDigitOf (base : ℕ) (c : UInt8) : Bool :=
  match digitVal c with
  | some d => d < base
  | none => false

/-- Magnitude of a string of digits. -/
def ofDigits (base : ℕ) (ds : List UInt8) : ℕ :=
  ds.foldl (fun n c => n * base + (digitVal c).getD 0) 0

/-- Split off an optional sign: whether it is a minus, its length, and the text after it. -/
def readSign : List UInt8 → Bool × ℕ × List UInt8
  | [] => (false, 0, [])
  | c :: s =>
    if c = 45 then (true, 1, s) else if c = 43 then (false, 1, s) else (false, 0, c :: s)

/-- The base a numeral announces, the length of its marker, and the text its digits start in. A
`0x` that no hexadecimal digit follows is the octal numeral `0`. -/
def readBase : List UInt8 → ℕ × ℕ × List UInt8
  | c :: x :: d :: s =>
    if c = 48 then
      if (x = 120 ∨ x = 88) ∧ isDigitOf 16 d then (16, 2, d :: s) else (8, 0, c :: x :: d :: s)
    else (10, 0, c :: x :: d :: s)
  | c :: s => if c = 48 then (8, 0, c :: s) else (10, 0, c :: s)
  | [] => (10, 0, [])

/-- What a conversion reads: sign, magnitude, and the number of bytes up to the last digit. -/
structure Numeral where
  negative : Bool
  magnitude : ℕ
  consumed : ℕ
  deriving DecidableEq

/-- Read a numeral in base 0; `none` if there is no digit to convert. -/
def readNumeral (text : List UInt8) : Option Numeral :=
  let signed := readSign (skipWs text)
  let based := readBase signed.2.2
  let digits := based.2.2.takeWhile (isDigitOf based.1)
  if digits = [] then none
  else
    -- white space, a sign and the marker of a base count as read
    some ⟨signed.1, ofDigits based.1 digits,
      (text.takeWhile isSpace).length + signed.2.1 + based.2.1 + digits.length⟩

/-- Result of a conversion: the value, the distance of the end pointer from the text, and whether
the range error is reported. Without a conversion the end pointer is the given text. -/
structure Conversion (V : Type) where
  value : V
  consumed : ℕ
  range : Bool
  deriving DecidableEq

/-- `strtoul(text, &end, 0)`. A minus sign negates in the unsigned type. -/
def strtoul (text : List UInt8) : Conversion ℕ :=
  match readNumeral text with
  | none => ⟨0, 0, false⟩
  | some n =>
    -- the range is that of the magnitude, whatever the sign
    if n.magnitude < 2 ^ 64 then
      ⟨if n.negative then (2 ^ 64 - n.magnitude) % 2 ^ 64 else n.magnitude, n.consumed, false⟩
    else ⟨2 ^ 64 - 1, n.consumed, true⟩

/-- `strtol(text, &end, 0)`. -/
def strtol (text : List UInt8) : Conversion ℤ :=
  match readNumeral text with
  | none => ⟨0, 0, false⟩
  | some n =>
    if n.negative then
      if n.magnitude ≤ 2 ^ 63 then ⟨-n.magnitude, n.consumed, false⟩
      else ⟨-2 ^ 63, n.consumed, true⟩
    else
      if n.magnitude < 2 ^ 63 then ⟨n.magnitude, n.consumed, false⟩
      else ⟨2 ^ 63 - 1, n.consumed, true⟩

/-- The text as a whole is a numeral, and `strtoul` reads it as `n`. -/
def Denotes (text : List UInt8) (n : ℕ) : Prop :=
  (strtoul text).consumed ≠ 0 ∧ text.drop (strtoul text).consumed = [] ∧ (strtoul text).value = n

theorem Denotes.ne_nil {text : List UInt8} {n : ℕ} (h : Denotes text n) : text ≠ [] := by
  rintro rfl
  exact h.1 rfl

theorem readSign_append (text : List UInt8) :
    ∃ sign, text = sign ++ (readSign text).2.2 ∧ sign.length = (readSign text).2.1 ∧
      ∀ c ∈ sign, c ≠ 0 := by
  cases text with
  | nil => exact ⟨[], by simp [readSign]⟩
  | cons c s =>
    by_cases hminus : c = 45
    · exact ⟨[c], by simp [readSign, hminus]⟩
    by_cases hplus : c = 43
    · exact ⟨[c], by simp [readSign, hplus]⟩
    · exact ⟨[], by simp [readSign, hminus, hplus]⟩

theorem readBase_append (text : List UInt8) :
    ∃ marker, text = marker ++ (readBase text).2.2 ∧ marker.length = (readBase text).2.1 ∧
      ∀ c ∈ marker, c ≠ 0 := by
  fun_cases readBase text with
  | case1 x d s hhex =>
    refine ⟨[48, x], rfl, rfl, ?_⟩
    rcases hhex.1 with rfl | rfl <;> simp
  | case2 => exact ⟨[], by simp⟩
  | case3 => exact ⟨[], by simp⟩
  | case4 => exact ⟨[], by simp⟩
  | case5 => exact ⟨[], by simp⟩
  | case6 => exact ⟨[], by simp⟩

theorem isDigitOf_zero (base : ℕ) : isDigitOf base 0 = false := rfl

/-- What a conversion consumes is free of terminators. -/
theorem readNumeral_consumed {text : List UInt8} {n : Numeral} (h : readNumeral text = some n) :
    ∃ numeral rest, text = numeral ++ rest ∧ numeral.length = n.consumed ∧
      ∀ c ∈ numeral, c ≠ 0 := by
  obtain ⟨sign, hsign, hsignLen, hsign0⟩ := readSign_append (skipWs text)
  obtain ⟨marker, hmarker, hmarkerLen, hmarker0⟩ := readBase_append (readSign (skipWs text)).2.2
  rw [readNumeral] at h
  split_ifs at h
  obtain rfl := Option.some.inj h
  -- the text is white space, sign, marker and digits, then what the conversion leaves
  set based := readBase (readSign (skipWs text)).2.2
  have htext : text = text.takeWhile isSpace ++ (sign ++ (marker ++
      (based.2.2.takeWhile (isDigitOf based.1) ++ based.2.2.dropWhile (isDigitOf based.1)))) := by
    rw [List.takeWhile_append_dropWhile, ← hmarker, ← hsign, skipWs,
      List.takeWhile_append_dropWhile]
  refine ⟨text.takeWhile isSpace ++ sign ++ marker ++ based.2.2.takeWhile (isDigitOf based.1),
    based.2.2.dropWhile (isDigitOf based.1), by simpa using htext,
    by simp [hsignLen, hmarkerLen, Nat.add_assoc], ?_⟩
  intro c hc
  simp only [List.mem_append] at hc
  rcases hc with ((hc | hc) | hc) | hc
  · rintro rfl
    exact absurd (List.mem_takeWhile_imp hc) (by decide)
  · exact hsign0 c hc
  · exact hmarker0 c hc
  · rintro rfl
    have hdigit := List.mem_takeWhile_imp hc
    rw [isDigitOf_zero] at hdigit
    cases hdigit

/-- A numeral contains no terminator. -/
theorem Denotes.ne_zero {text : List UInt8} {n : ℕ} (h : Denotes text n) : ∀ c ∈ text, c ≠ 0 := by
  obtain ⟨hconsumed, hrest, -⟩ := h
  cases hread : readNumeral text with
  | none => exact absurd (by rw [strtoul, hread]) hconsumed
  | some m =>
    have hm : (strtoul text).consumed = m.consumed := by
      simp only [strtoul, hread]
      split_ifs <;> rfl
    obtain ⟨numeral, rest, htext, hlen, hzero⟩ := readNumeral_consumed hread
    rw [hm, htext, ← hlen, List.drop_left] at hrest
    rw [htext, hrest, List.append_nil]
    exact hzero

example : strtoul (ascii "0x1f") = ⟨31, 4, false⟩ := by decide

example : strtoul (ascii " -1;") = ⟨2 ^ 64 - 1, 3, false⟩ := by decide

/-- `strchr` for a byte other than the terminator, as a distance. -/
def strchr (c : UInt8) (text : List UInt8) : Option ℕ := text.findIdx? (· == c)

/-- `strstr`, as a distance. -/
def strstr (needle : List UInt8) : List UInt8 → Option ℕ
  | [] => if needle = [] then some 0 else none
  | c :: s =>
    if needle.isPrefixOf (c :: s) then some 0 else (strstr needle s).map (· + 1)

/-- Bytes at none of which an occurrence begins are passed over. -/
theorem strstr_append {needle chunk rest : List UInt8}
    (h : ∀ i < chunk.length, ¬ needle <+: (chunk ++ rest).drop i) :
    strstr needle (chunk ++ rest) = (strstr needle rest).map (· + chunk.length) := by
  induction chunk with
  | nil => simp
  | cons c chunk ih =>
    have hhere : ¬ needle.isPrefixOf (c :: (chunk ++ rest)) := by
      rw [List.isPrefixOf_iff_prefix]
      exact h 0 (Nat.succ_pos _)
    have hrest := ih fun i hi => h (i + 1) (Nat.succ_lt_succ hi)
    rw [List.cons_append, strstr, if_neg hhere, hrest, Option.map_map]
    rfl

theorem strstr_of_prefix {needle text : List UInt8} (h : needle <+: text) (hne : needle ≠ []) :
    strstr needle text = some 0 := by
  cases text with
  | nil => exact absurd (List.prefix_nil.mp h) hne
  | cons c text => rw [strstr, if_pos (List.isPrefixOf_iff_prefix.mpr h)]

theorem strchr_append {c : UInt8} {chunk rest : List UInt8} (h : c ∉ chunk) :
    strchr c (chunk ++ rest) = (strchr c rest).map (· + chunk.length) := by
  have hnone : chunk.findIdx? (· == c) = none := by
    rw [List.findIdx?_eq_none_iff]
    intro d hd
    rw [beq_eq_false_iff_ne]
    rintro rfl
    exact h hd
  rw [strchr, List.findIdx?_append, hnone, Option.none_or, strchr]

theorem strchr_cons_self {c : UInt8} {rest : List UInt8} : strchr c (c :: rest) = some 0 := by
  rw [strchr, List.findIdx?_cons, beq_self_eq_true]
  rfl

/-- Decimal digits of a natural number. -/
def natDecimal (n : ℕ) : List UInt8 := (Nat.toDigits 10 n).map byte

/-- A number has at most `k` digits when it is below the `k`-th power of ten. -/
theorem length_natDecimal_le_iff {n k : ℕ} (hk : 0 < k) :
    (natDecimal n).length ≤ k ↔ n < 10 ^ k := by
  rw [natDecimal, List.length_map]
  exact Nat.length_toDigits_le_iff (by decide) hk

/-- The text `%d` prints. -/
def decimal (v : ℤ) : List UInt8 :=
  if v < 0 then byte '-' :: natDecimal v.natAbs else natDecimal v.natAbs

end CText
