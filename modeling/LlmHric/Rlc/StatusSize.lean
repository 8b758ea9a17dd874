import LlmHric.Rlc.AmStatus
import LlmHric.Rlc.BitFields

/-! The size that `status_size` announces is computed by loops of its own, which add up the sizes of
the NACKs that `generate_status` would write. -/

namespace LlmHric.Rlc

namespace AmEntity

variable {e : AmEntity}

/-- The bits of a NACK, as `missing_size` counts them. -/
def nackBits (e : AmEntity) (snStart soStart snEnd soEnd : ℕ) : ℕ :=
  let rBits := if e.cfg.snFieldLength = .sn18 then 3 else 1
  if snStart = snEnd then
    if soStart = 0 ∧ soEnd = 0xffff then e.cfg.snFieldLength.bits + 3 + rBits
    else e.cfg.snFieldLength.bits + 3 + rBits + 16 * 2
  else
    if soStart = 0 ∧ soEnd = 0xffff then e.cfg.snFieldLength.bits + 3 + rBits + 8
    else e.cfg.snFieldLength.bits + 3 + rBits + 16 * 2 + 8

/-- The loop of `missing_size`, with the count of sequence numbers that are left: the size, the
number of ranges, and whether the report was truncated. -/
def missingSizeFrom (e : AmEntity) (m : Missing) (maxsize : ℕ) :
    ℕ → ℕ → ℕ → ℕ → ℕ → ℕ × ℕ × Bool
  | 0, _, _, size, rangeCount => (size, rangeCount, false)
  | fuel + 1, snStart, snCount, size, rangeCount =>
    if snCount = 0 then (size, rangeCount, false)
    else
      let curSnCount := min snCount 255
      let soStart := if snStart = m.snStart then m.soStart else 0
      let (snEnd, soEnd) := if curSnCount = snCount then (m.snEnd, m.soEnd)
        else ((snStart + 254) % e.cfg.snModulus, 0xffff)
      if size + e.nackSize snStart soStart snEnd soEnd > maxsize then (size, rangeCount, true)
      else
        e.missingSizeFrom m maxsize fuel ((snStart + curSnCount) % e.cfg.snModulus)
          (snCount - curSnCount) (size + e.nackBits snStart soStart snEnd soEnd / 8)
          (rangeCount + 1)

/-- `missing_size` -/
def missingSize (e : AmEntity) (m : Missing) (size maxsize : ℕ) : ℕ × ℕ × Bool :=
  let snCount := (m.snEnd + e.cfg.snModulus - m.snStart) % e.cfg.snModulus + 1
  e.missingSizeFrom m maxsize snCount m.snStart snCount size 0

/-- The loop of `status_size`. -/
def statusSizeFrom (e : AmEntity) (maxsize : ℕ) : ℕ → List Pdu → ℕ → ℕ → Option ℕ
  | 0, _, _, _ => none
  | _ + 1, [], _, size => some size
  | fuel + 1, cur :: rest, nackCount, size =>
    match e.nextMissing fuel cur rest (nackCount == 0) with
    | none => none
    | some none => some size
    | some (some m) =>
      let (size', rangeCount, truncated) := e.missingSize m size maxsize
      e.statusSizeFrom maxsize fuel (if truncated then [] else m.next)
        (nackCount + rangeCount) size'

/-- `status_size` -/
def statusSize (fuel : ℕ) (e : AmEntity) (maxsize : ℕ) : Option ℕ :=
  if maxsize < 3 then some 0 else e.statusSizeFrom maxsize fuel e.getFirstRxPdu 0 3

/-- The two ways to count agree. -/
theorem nackBits_eq (snStart soStart snEnd soEnd : ℕ) :
    e.nackBits snStart soStart snEnd soEnd = 8 * e.nackSize snStart soStart snEnd soEnd := by
  rw [nackBits, nackSize]
  cases e.cfg.snFieldLength <;> dsimp only [SnFieldLength.bits] <;> split_ifs <;> simp_all

end AmEntity

/-! ### Writing -/

theorem Encoder.putBits_of_room {c : Encoder} {count : ℕ} (value : ℕ)
    (h : c.bits.length + count ≤ 8 * c.size) :
    c.putBits value count = some { c with bits := c.bits ++ fieldBits value count } := by
  induction count generalizing c with
  | zero => rw [Encoder.putBits, fieldBits, List.append_nil]
  | succ count ih =>
    have hroom : c.byte ≠ c.size := by
      rw [Encoder.byte]
      omega
    have hbit : c.putBit (value.testBit count) =
        some { c with bits := c.bits ++ [value.testBit count] } := if_neg hroom
    rw [Encoder.putBits, hbit]
    dsimp only
    rw [ih (by simp only [List.length_append, List.length_singleton]; omega), fieldBits]
    simp

theorem Encoder.exists_putBits (c : Encoder) (value count : ℕ)
    (h : c.bits.length + count ≤ 8 * c.size) :
    ∃ c', c.putBits value count = some c' ∧ c'.bits.length = c.bits.length + count ∧
      c'.size = c.size := by
  refine ⟨_, Encoder.putBits_of_room value h, ?_, rfl⟩
  rw [List.length_append, length_fieldBits]

/-- A report of `size` bytes in a buffer of `n` bytes. -/
structure StatusEncoder.Holds (s : StatusEncoder) (n size : ℕ) : Prop where
  length : s.encoder.bits.length = 8 * size
  buffer : s.encoder.size = n
  le : size ≤ n
  soEnd : ∀ byte, s.soEndByte = some byte → byte + 2 ≤ size

namespace StatusEncoder.Holds

variable {s : StatusEncoder} {n size : ℕ} {e : AmEntity}

theorem byte (h : s.Holds n size) : s.encoder.byte = size := by
  rw [Encoder.byte, h.length, Nat.mul_div_cancel_left _ (by decide)]

/-- The last `SOend` is overwritten in place. -/
theorem forceSoEnd (h : s.Holds n size) : s.forceSoEnd.Holds n size := by
  unfold StatusEncoder.forceSoEnd
  split
  · exact h
  next byte hbyte =>
  have hle := h.soEnd byte hbyte
  have hlength := h.length
  refine ⟨?_, h.buffer, h.le, h.soEnd⟩
  simp only [List.length_append, List.length_take, List.length_replicate, List.length_drop]
  omega

/-- A NACK for which there is room is written. -/
theorem putNack (h : s.Holds n size) (snStart soStart snEnd soEnd snCount : ℕ)
    (hroom : size + e.nackSize snStart soStart snEnd soEnd ≤ n) :
    ∃ s', e.putNack s snStart soStart snEnd soEnd snCount = some s' ∧
      s'.Holds n (size + e.nackSize snStart soStart snEnd soEnd) := by
  obtain ⟨k, hk⟩ : ∃ k, k = e.nackSize snStart soStart snEnd soEnd := ⟨_, rfl⟩
  have hbits : e.cfg.snFieldLength.bits + 3 + (if e.cfg.snFieldLength = .sn18 then 3 else 1) +
      (if soStart = 0 ∧ soEnd = 0xffff then 0 else 32) + (if snStart = snEnd then 0 else 8) =
        8 * k := by
    rw [hk, AmEntity.nackSize]
    cases e.cfg.snFieldLength <;> dsimp only [SnFieldLength.bits] <;> split_ifs <;> simp_all
  rw [← hk] at hroom ⊢
  have hlength := h.length
  have hbuffer := h.buffer
  -- the fields that every NACK has
  obtain ⟨c₁, h₁, l₁, z₁⟩ := (s.encoder.setBit s.e1Byte s.e1Bit).exists_putBits snStart
    e.cfg.snFieldLength.bits (by simp only [Encoder.setBit, List.length_set]; omega)
  simp only [Encoder.setBit, List.length_set] at l₁ z₁
  obtain ⟨c₂, h₂, l₂, z₂⟩ := c₁.exists_putBits 0 1 (by omega)
  obtain ⟨c₃, h₃, l₃, z₃⟩ := c₂.exists_putBits
    (if ¬ (soStart = 0 ∧ soEnd = 0xffff) then 1 else 0) 1 (by omega)
  obtain ⟨c₄, h₄, l₄, z₄⟩ := c₃.exists_putBits
    (if snStart ≠ snEnd then 1 else 0) 1 (by omega)
  obtain ⟨c₅, h₅, l₅, z₅⟩ := c₄.exists_putBits 0
    (if e.cfg.snFieldLength = .sn18 then 3 else 1) (by omega)
  have hrange : ∀ (c : Encoder) (f : Encoder → Option StatusEncoder),
      c.bits.length + (if snStart = snEnd then 0 else 8) ≤ 8 * c.size →
      ∃ c', (if snStart ≠ snEnd then (c.putBits snCount 8).bind f else f c) = f c' ∧
        c'.bits.length = c.bits.length + (if snStart = snEnd then 0 else 8) ∧ c'.size = c.size := by
    intro c f hc
    by_cases hsame : snStart = snEnd
    · exact ⟨c, if_neg (not_not.mpr hsame), by rw [if_pos hsame, Nat.add_zero], rfl⟩
    · rw [if_neg hsame] at hc
      obtain ⟨d, hd, ld, zd⟩ := c.exists_putBits snCount 8 hc
      refine ⟨d, ?_, by rw [if_neg hsame, ld], zd⟩
      rw [if_pos hsame, hd, Option.bind_some]
  have hholds : ∀ (c : Encoder) e1Byte e1Bit soEndByte, c.bits.length = 8 * (size + k) → c.size =
      n →
      (∀ byte, soEndByte = some byte → 8 * byte + 16 ≤ c.bits.length) →
      Holds ⟨c, e1Byte, e1Bit, soEndByte⟩ n (size + k) := by
    intro c e1Byte e1Bit soEndByte hc hn hso
    refine ⟨hc, hn, hroom, fun byte hbyte => ?_⟩
    have hle := hso byte hbyte
    omega
  rw [AmEntity.putNack]
  simp only [Option.bind_eq_bind, h₁, Option.bind_some, h₂, h₃, h₄, h₅]
  by_cases hwhole : soStart = 0 ∧ soEnd = 0xffff
  · rw [if_pos hwhole] at hbits
    rw [if_neg (not_not.mpr hwhole)]
    obtain ⟨c₆, h₆, l₆, z₆⟩ := hrange c₅ _ (by omega)
    exact ⟨_, h₆, hholds _ _ _ _ (by omega) (by omega) fun _ hnone => by cases hnone⟩
  · rw [if_neg hwhole] at hbits
    obtain ⟨d₁, hd₁, ld₁, zd₁⟩ := c₅.exists_putBits soStart 16 (by omega)
    obtain ⟨d₂, hd₂, ld₂, zd₂⟩ := d₁.exists_putBits soEnd 16 (by omega)
    rw [if_pos hwhole, hd₁, Option.bind_some, hd₂, Option.bind_some]
    obtain ⟨c₆, h₆, l₆, z₆⟩ := hrange d₂ _ (by omega)
    refine ⟨_, h₆, hholds _ _ _ _ (by omega) (by omega) fun byte hbyte => ?_⟩
    obtain rfl := Option.some.inj hbyte
    rw [Encoder.byte]
    omega

end StatusEncoder.Holds

/-! ### Both loops -/

namespace AmEntity

variable {e : AmEntity} {s : StatusEncoder} {m : Missing} {n size : ℕ}

theorem two_le_nackSize (snStart soStart snEnd soEnd : ℕ) :
    2 ≤ e.nackSize snStart soStart snEnd soEnd := by
  rw [nackSize]
  omega

/-- The loops over the ranges of a missing part do the same. Unless the report is truncated they add
a NACK. -/
theorem generateMissingFrom_eq (h : s.Holds n size) (fuel snStart snCount : ℕ) (last : Option ℕ)
    (rangeCount : ℕ) :
    ∃ s' last' size' rangeCount' truncated,
      e.generateMissingFrom m fuel snStart snCount s last = some (s', last', truncated) ∧
      e.missingSizeFrom m n fuel snStart snCount size rangeCount =
        (size', rangeCount', truncated) ∧
      s'.Holds n size' ∧ size ≤ size' ∧ rangeCount ≤ rangeCount' ∧
      (0 < fuel → 0 < snCount → truncated = false → size < size' ∧ rangeCount < rangeCount') := by
  induction fuel generalizing s size snStart snCount last rangeCount with
  | zero =>
    exact ⟨s, last, size, rangeCount, false, rfl, rfl, h, Nat.le_refl _, Nat.le_refl _,
      fun hfuel => absurd hfuel (Nat.lt_irrefl 0)⟩
  | succ fuel ih =>
    rw [generateMissingFrom, missingSizeFrom]
    by_cases hzero : snCount = 0
    · rw [if_pos hzero, if_pos hzero]
      exact ⟨s, last, size, rangeCount, false, rfl, rfl, h, Nat.le_refl _, Nat.le_refl _,
        fun _ hpos => absurd hpos (by omega)⟩
    rw [if_neg hzero, if_neg hzero, h.byte, h.buffer]
    dsimp only
    obtain ⟨soStart, hsoStart⟩ : ∃ soStart,
      soStart = if snStart = m.snStart then m.soStart else 0 := ⟨_, rfl⟩
    obtain ⟨⟨snEnd, soEnd⟩, hend⟩ : ∃ ends : ℕ × ℕ, ends = if min snCount 255 = snCount then
      (m.snEnd, m.soEnd) else ((snStart + 254) % e.cfg.snModulus, 0xffff) := ⟨_, rfl⟩
    rw [← hsoStart, ← hend]
    dsimp only
    by_cases hfull : size + e.nackSize snStart soStart snEnd soEnd > n
    · rw [if_pos hfull, if_pos hfull]
      exact ⟨s, last, size, rangeCount, true, rfl, rfl, h, Nat.le_refl _, Nat.le_refl _,
        fun _ _ htrunc => by cases htrunc⟩
    rw [if_neg hfull, if_neg hfull, nackBits_eq, Nat.mul_div_cancel_left _ (by decide)]
    obtain ⟨s₁, hput, h₁⟩ := h.putNack (e := e) snStart soStart snEnd soEnd (min snCount 255)
      (Nat.not_lt.mp hfull)
    rw [hput]
    have hnack := e.two_le_nackSize snStart soStart snEnd soEnd
    obtain ⟨s', last', size', rangeCount', truncated, hgenerate, hmissing, h', hsize, hrange, -⟩ :=
      ih h₁ ((snStart + min snCount 255) % e.cfg.snModulus) (snCount - min snCount 255)
        (some (snStart + if snStart ≠ snEnd then min snCount 255 - 1 else 0)) (rangeCount + 1)
    exact ⟨s', last', size', rangeCount', truncated, hgenerate, hmissing, h', by omega, by omega,
      fun _ _ _ => by omega⟩

theorem generateMissing_eq (h : s.Holds n size) (m : Missing) :
    ∃ s' last size' rangeCount truncated,
      e.generateMissing m s = some (s', last, truncated) ∧
      e.missingSize m size n = (size', rangeCount, truncated) ∧ s'.Holds n size' ∧
      (truncated = false → size < size' ∧ 0 < rangeCount) := by
  obtain ⟨s', last, size', rangeCount, truncated, hgenerate, hmissing, h', -, -, hprogress⟩ :=
    generateMissingFrom_eq (e := e) (m := m) h
      ((m.snEnd + e.cfg.snModulus - m.snStart) % e.cfg.snModulus + 1) m.snStart
      ((m.snEnd + e.cfg.snModulus - m.snStart) % e.cfg.snModulus + 1) none 0
  exact ⟨s', last, size', rangeCount, truncated, hgenerate, hmissing, h',
    hprogress (Nat.succ_pos _) (Nat.succ_pos _)⟩

/-- The loops over the missing parts do the same. -/
theorem generateStatusFrom_eq (h : s.Holds n size) (fuel : ℕ) (l : List Pdu) (checkHead : Bool)
    (nackCount lastNack : ℕ) (hhead : l ≠ [] → checkHead = (nackCount == 0)) :
    (∃ s' lastNack' size', e.generateStatusFrom fuel l checkHead s lastNack = some (s', lastNack') ∧
        e.statusSizeFrom n fuel l nackCount size = some size' ∧ s'.Holds n size') ∨
      (e.generateStatusFrom fuel l checkHead s lastNack = none ∧
        e.statusSizeFrom n fuel l nackCount size = none) := by
  induction fuel generalizing l checkHead s size nackCount lastNack with
  | zero => exact .inr ⟨rfl, rfl⟩
  | succ fuel ih =>
    cases l with
    | nil => exact .inl ⟨s, lastNack, size, rfl, rfl, h⟩
    | cons cur rest =>
      rw [generateStatusFrom, statusSizeFrom, ← hhead (List.cons_ne_nil cur rest)]
      cases hmissing : e.nextMissing fuel cur rest checkHead with
      | none => exact .inr ⟨rfl, rfl⟩
      | some missing =>
        cases missing with
        | none => exact .inl ⟨s, lastNack, size, rfl, rfl, h⟩
        | some m =>
          obtain ⟨s', last, size', rangeCount, truncated, hgenerate, hsize, h', hprogress⟩ :=
            generateMissing_eq (e := e) h m
          dsimp only
          rw [hgenerate, hsize]
          cases truncated with
          | true => exact ih h'.forceSoEnd [] false _ _ fun hne => absurd rfl hne
          | false =>
            obtain ⟨-, hcount⟩ := hprogress rfl
            refine ih h' m.next false _ _ fun _ => ?_
            symm
            simp only [beq_eq_false_iff_ne, ne_eq]
            omega

@[simp] theorem length_putAckSn (ackSn : ℕ) (buffer : List UInt8) :
    (e.putAckSn ackSn buffer).length = buffer.length := by
  rw [putAckSn]
  split <;> simp

/-- Either both computations need more rounds, or the report is written, and has the announced size.
-/
theorem generateStatus_eq (e : AmEntity) (fuel n : ℕ) :
    (∃ pdu e', e.generateStatus fuel n = some (pdu, e') ∧ e.statusSize fuel n = some pdu.length ∧
        pdu.length ≤ n) ∨
      (e.generateStatus fuel n = none ∧ e.statusSize fuel n = none) := by
  rw [generateStatus, statusSize]
  by_cases hsmall : n < 3
  · rw [if_pos hsmall, if_pos hsmall]
    exact .inl ⟨[], e, rfl, rfl, Nat.zero_le n⟩
  rw [if_neg hsmall, if_neg hsmall]
  obtain ⟨c, hc, hlength, hbuffer⟩ := (Encoder.init n).exists_putBits 0 24
    (by simp only [Encoder.init, List.length_nil]; omega)
  simp only [Option.bind_eq_bind, hc, Option.bind_some]
  have hinit : StatusEncoder.Holds ⟨c, 2, if e.cfg.snFieldLength = .sn18 then 1 else 7, none⟩ n 3 :=
    ⟨hlength, hbuffer, Nat.not_lt.mp hsmall, fun _ hnone => by cases hnone⟩
  rcases generateStatusFrom_eq (e := e) hinit fuel e.getFirstRxPdu true 0 (e.prevSn e.rxNext)
    (fun _ => rfl) with ⟨s, lastNack, size, hgenerate, hsize, hs⟩ | ⟨hgenerate, hsize⟩
  · rw [hgenerate, hsize]
    have hbytes : (toBytes s.encoder.bits).length = size := by
      have hmod : s.encoder.bits.length % 8 = 0 := by rw [hs.length, Nat.mul_mod_right]
      rw [Ahead.length_toBytes hmod, hs.length, Nat.mul_div_cancel_left _ (by decide)]
    refine .inl ⟨_, _, rfl, ?_, ?_⟩
    · rw [length_putAckSn, hbytes]
    · rw [length_putAckSn, hbytes]
      exact hs.le
  · rw [hgenerate, hsize]
    exact .inr ⟨rfl, rfl⟩

end AmEntity

end LlmHric.Rlc
