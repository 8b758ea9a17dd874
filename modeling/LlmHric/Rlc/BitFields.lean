import LlmHric.Rlc.Pdu
import Mathlib.Data.List.GetD

/-! A header is written field by field, the most significant bit first, and read the same way. What
a decoder has in front of it is a sequence of bits and the data behind them; reading a field takes
its bits away. -/

namespace LlmHric.Rlc

def fieldBits (value : ℕ) : ℕ → List Bool
  | 0 => []
  | count + 1 => value.testBit count :: fieldBits value count

@[simp] theorem length_fieldBits (value count : ℕ) : (fieldBits value count).length = count := by
  induction count with
  | zero => rfl
  | succ count ih => rw [fieldBits, List.length_cons, ih]

/-- A field is appended to what was written. -/
theorem bits_putBits {c c' : Encoder} {value count : ℕ} (h : c.putBits value count = some c') :
    c' = { c with bits := c.bits ++ fieldBits value count } := by
  induction count generalizing c with
  | zero =>
    obtain rfl := Option.some.inj h
    rw [fieldBits, List.append_nil]
  | succ count ih =>
    rw [Encoder.putBits, Encoder.putBit] at h
    by_cases hfull : c.byte = c.size
    · rw [if_pos hfull] at h
      cases h
    · rw [if_neg hfull] at h
      rw [ih h, fieldBits, List.append_assoc]
      rfl

def bitsValue (ret : ℕ) (bits : List Bool) : ℕ := bits.foldl (fun n b => 2 * n + b.toNat) ret

theorem bitsValue_fieldBits (ret value count : ℕ) :
    bitsValue ret (fieldBits value count) = ret * 2 ^ count + value % 2 ^ count := by
  induction count generalizing ret with
  | zero => simp [bitsValue, fieldBits, Nat.mod_one]
  | succ count ih =>
    have hbit : (value.testBit count).toNat = value / 2 ^ count % 2 := by
      rw [Nat.testBit_eq_decide_div_mod_eq]
      rcases Nat.mod_two_eq_zero_or_one (value / 2 ^ count) with h | h <;> simp [h]
    rw [fieldBits]
    change bitsValue (2 * ret + (value.testBit count).toNat) (fieldBits value count) = _
    rw [ih, hbit, Nat.mod_pow_succ, pow_succ, Nat.add_mul]
    ring

/-! ### Reading -/

theorem byte_bit : ∀ b₇ b₆ b₅ b₄ b₃ b₂ b₁ b₀ : Bool, ∀ i < 8,
    (UInt8.ofNat ([b₇, b₆, b₅, b₄, b₃, b₂, b₁, b₀].foldl (fun n b => 2 * n + b.toNat) 0)).toNat >>>
      (7 - i) % 2 = ([b₇, b₆, b₅, b₄, b₃, b₂, b₁, b₀].getD i false).toNat := by
  decide

/-- Fewer than eight bits that are whole bytes. -/
theorem eq_nil_of_no_byte {bits : List Bool}
    (hbits : ∀ b₇ b₆ b₅ b₄ b₃ b₂ b₁ b₀ rest,
      bits = b₇ :: b₆ :: b₅ :: b₄ :: b₃ :: b₂ :: b₁ :: b₀ :: rest → False)
    (hbytes : bits.length % 8 = 0) : bits = [] := by
  match bits with
  | [] => rfl
  | [_] | [_, _] | [_, _, _] | [_, _, _, _] | [_, _, _, _, _] | [_, _, _, _, _, _]
  | [_, _, _, _, _, _, _] => simp at hbytes
  | b₇ :: b₆ :: b₅ :: b₄ :: b₃ :: b₂ :: b₁ :: b₀ :: rest =>
    exact absurd rfl (hbits b₇ b₆ b₅ b₄ b₃ b₂ b₁ b₀ rest)

theorem getElem?_toBytes {bits : List Bool} {pos : ℕ} (h : pos < bits.length)
    (hbytes : bits.length % 8 = 0) : ∃ b, (toBytes bits)[pos / 8]? = some b ∧
      b.toNat >>> (7 - pos % 8) % 2 = (bits.getD pos false).toNat := by
  induction bits using toBytes.induct generalizing pos with
  | case1 b₇ b₆ b₅ b₄ b₃ b₂ b₁ b₀ bits ih =>
    simp only [List.length_cons] at h hbytes
    rw [toBytes]
    by_cases hpos : pos < 8
    · rw [Nat.div_eq_of_lt hpos, Nat.mod_eq_of_lt hpos]
      refine ⟨_, rfl, (byte_bit _ _ _ _ _ _ _ _ pos hpos).trans ?_⟩
      exact congrArg Bool.toNat
        (List.getD_append [b₇, b₆, b₅, b₄, b₃, b₂, b₁, b₀] bits _ _ hpos).symm
    · obtain ⟨b, hb, hbit⟩ := @ih (pos - 8) (by omega) (by omega)
      obtain ⟨k, rfl⟩ := Nat.exists_eq_add_of_le (Nat.not_lt.mp hpos)
      rw [Nat.add_sub_cancel_left] at hb hbit
      rw [Nat.add_div_left k (by decide), Nat.add_mod_left]
      refine ⟨b, hb, hbit.trans ?_⟩
      rw [Nat.add_comm 8 k]
      rfl
  | case2 bits hbits =>
    rw [eq_nil_of_no_byte hbits hbytes] at h
    exact absurd h (Nat.not_lt_zero pos)

/-- A decoder in front of some bits and the data behind them. -/
def Ahead (d : Decoder) (bits : List Bool) (data : List UInt8) : Prop :=
  ∃ done : List Bool, (done ++ bits).length % 8 = 0 ∧
    d = ⟨toBytes (done ++ bits) ++ data, done.length / 8, done.length % 8⟩

namespace Ahead

variable {d : Decoder} {bits rest : List Bool} {data : List UInt8}

/-- A decoder at the beginning of a header. -/
theorem init (h : bits.length % 8 = 0) : Ahead (.init (toBytes bits ++ data)) bits data :=
  ⟨[], h, rfl⟩

theorem getBit {b : Bool} (h : Ahead d (b :: bits) data) :
    ∃ d', d.getBit = some (b.toNat, d') ∧ Ahead d' bits data := by
  obtain ⟨done, hbytes, rfl⟩ := h
  have hassoc : done ++ b :: bits = (done ++ [b]) ++ bits := by
    rw [List.append_assoc, List.singleton_append]
  have hlt : done.length < (done ++ b :: bits).length := by
    rw [List.length_append, List.length_cons]
    omega
  obtain ⟨byte, hbyte, hbit⟩ := getElem?_toBytes hlt hbytes
  have hbuffer : (toBytes (done ++ b :: bits) ++ data)[done.length / 8]? = some byte := by
    rw [List.getElem?_append_left (List.getElem?_eq_some_iff.mp hbyte).1]
    exact hbyte
  have hvalue : (done ++ b :: bits).getD done.length false = b := by
    rw [List.getD_eq_getElem?_getD, List.getElem?_append_right le_rfl, Nat.sub_self]
    rfl
  refine ⟨_, ?_, done ++ [b], ?_, rfl⟩
  · rw [Decoder.getBit]
    dsimp only
    rw [hbuffer]
    dsimp only
    rw [hbit, hvalue, Decoder.next, ← hassoc, List.length_append, List.length_singleton]
    dsimp only
    split_ifs with hlast
    · congr 3 <;> omega
    · congr 3 <;> omega
  · rw [← hassoc]
    exact hbytes

theorem getBitsFrom {field : List Bool} (ret : ℕ) (h : Ahead d (field ++ bits) data) :
    ∃ d', d.getBitsFrom ret field.length = some (bitsValue ret field, d') ∧
      Ahead d' bits data := by
  induction field generalizing d ret with
  | nil => exact ⟨d, rfl, h⟩
  | cons b field ih =>
    obtain ⟨d₁, hbit, h₁⟩ := h.getBit
    obtain ⟨d', hbits, h'⟩ := ih (2 * ret + b.toNat) h₁
    refine ⟨d', ?_, h'⟩
    rw [List.length_cons, Decoder.getBitsFrom, hbit]
    exact hbits

/-- A field that was written is read. -/
theorem getBits {value count : ℕ} (h : Ahead d (fieldBits value count ++ bits) data)
    (hvalue : value < 2 ^ count) :
    ∃ d', d.getBits count = some (value, d') ∧ Ahead d' bits data := by
  obtain ⟨d', hbits, h'⟩ := h.getBitsFrom 0
  rw [length_fieldBits, bitsValue_fieldBits, Nat.zero_mul, Nat.zero_add,
    Nat.mod_eq_of_lt hvalue] at hbits
  exact ⟨d', hbits, h'⟩

theorem length_toBytes (h : bits.length % 8 = 0) : (toBytes bits).length = bits.length / 8 := by
  induction bits using toBytes.induct with
  | case1 b₇ b₆ b₅ b₄ b₃ b₂ b₁ b₀ bits ih =>
    simp only [List.length_cons] at h ⊢
    rw [toBytes, List.length_cons, ih (by omega)]
    omega
  | case2 bits hbits =>
    rw [eq_nil_of_no_byte hbits h]
    rfl

/-- The data stands behind the header. -/
theorem drop_eq (h : Ahead d [] data) :
    d.buffer.drop d.byte = data ∧ d.buffer.length = d.byte + data.length := by
  obtain ⟨done, hbytes, rfl⟩ := h
  rw [List.append_nil] at hbytes ⊢
  dsimp only
  rw [← length_toBytes hbytes, List.length_append]
  exact ⟨List.drop_left, rfl⟩

end Ahead

end LlmHric.Rlc
