import LlmHric.Pdcp.PdcpEntity
import Mathlib.Algebra.Order.Group.Unbundled.Int

/-! A PDU carries the sequence number only. The receiving entity takes the HFN of `rx_deliv`, the
one after it or the one before it, so that the COUNT lies in a window around `rx_deliv`. The HFN
before the first one and the one after the last one wrap around, and the COUNT is then at the other
end of its range. -/

namespace LlmHric.Pdcp

namespace PdcpConfig

variable (cfg : PdcpConfig)

/-- How many sequence numbers there are. -/
def snModulus : ℕ := 1 <<< cfg.snSize.bits

/-- How many HFNs there are. -/
def hfnModulus : ℕ := 1 <<< (32 - cfg.snSize.bits)

theorem snModulus_eq : cfg.snModulus = 2 * cfg.windowSize := by
  rw [snModulus, windowSize]
  cases cfg.snSize <;> rfl

theorem windowSize_pos : 0 < cfg.windowSize := by
  rw [windowSize]
  cases cfg.snSize <;> decide

theorem snModulus_pos : 0 < cfg.snModulus := by
  rw [snModulus]
  cases cfg.snSize <;> decide

theorem snModulus_mul_hfnModulus : cfg.snModulus * cfg.hfnModulus = 4294967296 := by
  rw [snModulus, hfnModulus]
  cases cfg.snSize <;> rfl

end PdcpConfig

namespace PdcpEntity

variable {e : PdcpEntity} {sn : ℕ}

theorem rxDelivSn_eq (e : PdcpEntity) : e.rxDelivSn = e.rxDeliv.toNat % e.cfg.snModulus := by
  rw [rxDelivSn, PdcpConfig.snMax, PdcpConfig.snModulus]
  cases e.cfg.snSize
  · exact Nat.and_two_pow_sub_one_eq_mod _ 12
  · exact Nat.and_two_pow_sub_one_eq_mod _ 18

theorem toNat_rxDelivHfn (e : PdcpEntity) :
    e.rxDelivHfn.toNat = e.rxDeliv.toNat / e.cfg.snModulus := by
  rw [rxDelivHfn, PdcpConfig.snModulus]
  cases e.cfg.snSize
  · exact Nat.shiftRight_eq_div_pow _ 12
  · exact Nat.shiftRight_eq_div_pow _ 18

/-- The high bits of what is put in front of a sequence number are lost. -/
theorem toNat_shiftLeft_or (hfn : UInt32) (snSize : SnSize) (hsn : sn < 1 <<< snSize.bits) :
    (hfn <<< UInt32.ofNat snSize.bits ||| UInt32.ofNat sn).toNat =
      (1 <<< snSize.bits) * (hfn.toNat % (1 <<< (32 - snSize.bits))) + sn := by
  have hlt : snSize.bits < 32 := by cases snSize <;> decide
  generalize snSize.bits = bits at hsn hlt ⊢
  rw [Nat.one_shiftLeft] at hsn ⊢
  have hle : 2 ^ bits ≤ 2 ^ 32 := Nat.pow_le_pow_right (by decide) hlt.le
  have hpow : 2 ^ 32 = 2 ^ bits * 2 ^ (32 - bits) := by
    rw [← Nat.pow_add]
    congr 1
    omega
  rw [UInt32.toNat_or, UInt32.toNat_shiftLeft, UInt32.toNat_ofNat', UInt32.toNat_ofNat',
    Nat.mod_eq_of_lt (hsn.trans_le hle), Nat.mod_eq_of_lt (a := bits) (by omega),
    Nat.mod_eq_of_lt hlt, Nat.shiftLeft_eq, Nat.mul_comm, Nat.one_shiftLeft, hpow,
    Nat.mul_mod_mul_left, Nat.two_pow_add_eq_or_of_lt hsn]

theorem toNat_rcvdCount (hsn : sn < e.cfg.snModulus) : (e.rcvdCount sn).toNat =
    e.cfg.snModulus * ((e.rcvdHfn sn).toNat % e.cfg.hfnModulus) + sn :=
  toNat_shiftLeft_or _ _ hsn

/-- The COUNT has the sequence number that was received. -/
theorem toNat_rcvdCount_mod (hsn : sn < e.cfg.snModulus) :
    (e.rcvdCount sn).toNat % e.cfg.snModulus = sn := by
  rw [toNat_rcvdCount hsn, Nat.mul_add_mod, Nat.mod_eq_of_lt hsn]

theorem toNat_rxDelivHfn_lt (e : PdcpEntity) : e.rxDelivHfn.toNat < e.cfg.hfnModulus := by
  rw [toNat_rxDelivHfn]
  refine Nat.div_lt_of_lt_mul ?_
  rw [e.cfg.snModulus_mul_hfnModulus]
  exact e.rxDeliv.toNat_lt

/-- The HFN of a received PDU, as a number. -/
theorem rcvdHfn_cases (e : PdcpEntity) (sn : ℕ) :
    sn + e.cfg.windowSize < e.rxDelivSn ∧ (e.rcvdHfn sn).toNat = e.rxDelivHfn.toNat + 1 ∨
    e.rxDelivSn + e.cfg.windowSize ≤ sn ∧ e.rxDelivHfn.toNat = 0 ∧
      (e.rcvdHfn sn).toNat = 4294967295 ∨
    e.rxDelivSn + e.cfg.windowSize ≤ sn ∧ (e.rcvdHfn sn).toNat + 1 = e.rxDelivHfn.toNat ∨
    e.rxDelivSn ≤ sn + e.cfg.windowSize ∧ sn < e.rxDelivSn + e.cfg.windowSize ∧
      (e.rcvdHfn sn).toNat = e.rxDelivHfn.toNat := by
  have hlt : e.rxDelivHfn.toNat < 1048576 := by
    refine e.toNat_rxDelivHfn_lt.trans_le ?_
    rw [PdcpConfig.hfnModulus]
    cases e.cfg.snSize <;> decide
  rw [rcvdHfn]
  by_cases hnext : (sn : ℤ) < e.rxDelivSn - e.cfg.windowSize
  · rw [if_pos hnext, UInt32.toNat_add]
    refine .inl ⟨by omega, Nat.mod_eq_of_lt ?_⟩
    simp only [UInt32.reduceToNat]
    omega
  · rw [if_neg hnext]
    by_cases hprev : sn ≥ e.rxDelivSn + e.cfg.windowSize
    · rw [if_pos hprev, UInt32.toNat_sub]
      simp only [UInt32.reduceToNat]
      by_cases hzero : e.rxDelivHfn.toNat = 0
      · exact .inr (.inl ⟨hprev, hzero, by rw [hzero]⟩)
      · exact .inr (.inr (.inl ⟨hprev, by omega⟩))
    · rw [if_neg hprev]
      exact .inr (.inr (.inr ⟨by omega, by omega, rfl⟩))

/-- The COUNT that a PDU has been given is the one with its sequence number in the window around
`rx_deliv`, and its HFN is a number next to the one of `rx_deliv`. -/
structure Inferred (e : PdcpEntity) (sn : ℕ) : Prop where
  congruent : (e.rcvdCount sn).toNat % e.cfg.snModulus = sn
  window_le : e.rxDeliv.toNat ≤ (e.rcvdCount sn).toNat + e.cfg.windowSize
  lt_window : (e.rcvdCount sn).toNat < e.rxDeliv.toNat + e.cfg.windowSize
  hfn_lt : (e.rcvdHfn sn).toNat < e.cfg.hfnModulus
  hfn_le : (e.rcvdHfn sn).toNat ≤ e.rxDelivHfn.toNat + 1
  le_hfn : e.rxDelivHfn.toNat ≤ (e.rcvdHfn sn).toNat + 1

/-- The first HFN has none before it, and the last one has none behind it. -/
def HfnInRange (e : PdcpEntity) (sn : ℕ) : Prop :=
  (e.rxDelivHfn.toNat = 0 → sn < e.rxDelivSn + e.cfg.windowSize) ∧
    (e.rxDelivHfn.toNat + 1 = e.cfg.hfnModulus → e.rxDelivSn ≤ sn + e.cfg.windowSize)

instance (e : PdcpEntity) (sn : ℕ) : Decidable (e.HfnInRange sn) :=
  inferInstanceAs (Decidable (_ ∧ _))

/-- An HFN next to the one of `rx_deliv` gives the COUNT in the window. -/
theorem window_of_hfn (e : PdcpEntity) {hfn : ℕ} (hsn : sn < e.cfg.snModulus)
    (h : sn + e.cfg.windowSize < e.rxDelivSn ∧ hfn = e.rxDelivHfn.toNat + 1 ∨
      e.rxDelivSn + e.cfg.windowSize ≤ sn ∧ hfn + 1 = e.rxDelivHfn.toNat ∨
      e.rxDelivSn ≤ sn + e.cfg.windowSize ∧ sn < e.rxDelivSn + e.cfg.windowSize ∧
        hfn = e.rxDelivHfn.toNat) :
    e.rxDeliv.toNat ≤ e.cfg.snModulus * hfn + sn + e.cfg.windowSize ∧
      e.cfg.snModulus * hfn + sn < e.rxDeliv.toNat + e.cfg.windowSize := by
  have hdeliv := Nat.div_add_mod e.rxDeliv.toNat e.cfg.snModulus
  have hlt := Nat.mod_lt e.rxDeliv.toNat e.cfg.snModulus_pos
  rw [← toNat_rxDelivHfn, ← rxDelivSn_eq] at hdeliv
  rw [← rxDelivSn_eq] at hlt
  have hmod := e.cfg.snModulus_eq
  rcases h with ⟨hlt, rfl⟩ | ⟨hle, hhfn⟩ | ⟨hle, hlt, rfl⟩
  · rw [Nat.mul_add_one]
    omega
  · rw [← hhfn, Nat.mul_add_one] at hdeliv
    omega
  · omega

/-- When the HFN does not wrap around, the COUNT is inferred as it should be. -/
theorem Inferred.of_hfnInRange (hsn : sn < e.cfg.snModulus) (h : e.HfnInRange sn) :
    e.Inferred sn := by
  obtain ⟨hfirst, hlast⟩ := h
  have hdeliv := e.toNat_rxDelivHfn_lt
  have hcases : sn + e.cfg.windowSize < e.rxDelivSn ∧
        (e.rcvdHfn sn).toNat = e.rxDelivHfn.toNat + 1 ∨
      e.rxDelivSn + e.cfg.windowSize ≤ sn ∧
        (e.rcvdHfn sn).toNat + 1 = e.rxDelivHfn.toNat ∨
      e.rxDelivSn ≤ sn + e.cfg.windowSize ∧ sn < e.rxDelivSn + e.cfg.windowSize ∧
        (e.rcvdHfn sn).toNat = e.rxDelivHfn.toNat := by
    rcases e.rcvdHfn_cases sn with h | ⟨hsn, hzero, -⟩ | h
    · exact .inl h
    · exact absurd (hfirst hzero) hsn.not_gt
    · exact .inr h
  have hlt : (e.rcvdHfn sn).toNat < e.cfg.hfnModulus := by omega
  have hcount := toNat_rcvdCount hsn
  rw [Nat.mod_eq_of_lt hlt] at hcount
  obtain ⟨hwindow, hwindow'⟩ := e.window_of_hfn hsn hcases
  rw [← hcount] at hwindow hwindow'
  exact ⟨toNat_rcvdCount_mod hsn, hwindow, hwindow', hlt, by omega, by omega⟩

/-- The COUNT is inferred as it should be exactly when the HFN does not wrap around. -/
theorem inferred_iff (e : PdcpEntity) (sn : ℕ) (hsn : sn < e.cfg.snModulus) :
    e.Inferred sn ↔ e.HfnInRange sn := by
  have hdeliv := e.toNat_rxDelivHfn_lt
  constructor
  · intro h
    have hlt := h.hfn_lt
    have hle := h.hfn_le
    have hwindow := e.cfg.windowSize_pos
    rcases e.rcvdHfn_cases sn with
      ⟨hsn, hhfn⟩ | ⟨hsn, hzero, hhfn⟩ | ⟨hsn, hhfn⟩ | ⟨hle, hsn, hhfn⟩
    · exact ⟨fun _ => by omega, fun hlast => by omega⟩
    · omega
    · exact ⟨fun hzero => by omega, fun _ => by omega⟩
    · exact ⟨fun _ => hsn, fun _ => hle⟩
  · exact .of_hfnInRange hsn

end PdcpEntity

/-- A data radio bearer with 12 bit sequence numbers, and without integrity protection. -/
def drbConfig : PdcpConfig := ⟨.drbAm, true, 1, false, false, .shortSn, some 100⟩

/-- Neither ciphering nor integrity protection. -/
def noSecurity : SecurityParameters := ⟨.off, .off, [], []⟩

/-- In a new entity every sequence number of the first half is its COUNT. -/
theorem inferred_new : (PdcpEntity.new drbConfig noSecurity).Inferred 2047 :=
  (PdcpEntity.inferred_iff (.new drbConfig noSecurity) 2047 (by decide)).mpr (by decide)

/-- Every received PDU is given the COUNT in the window around `rx_deliv`. -/
def InfersCount : Prop :=
  ∀ f cfg parameters ops sn, sn < cfg.snModulus →
    ((PdcpEntity.new cfg parameters).run f ops).Inferred sn

/-- Functions that do nothing. -/
def plainFunctions : SecurityFunctions where
  cipher := fun _ buffer _ _ _ => buffer
  integrity := fun _ _ _ _ _ => ⟨#[0, 0, 0, 0], rfl⟩
  length_cipher := fun _ _ _ _ _ => rfl

/-- In a new entity the sequence number 2048 is taken for a COUNT near the end of the range. -/
theorem not_infersCount : ¬ InfersCount := by
  intro hinfers
  have hwindow := (hinfers plainFunctions drbConfig noSecurity [] 2048 (by decide)).lt_window
  exact absurd hwindow (by decide)

/-- The PDU is stored with that COUNT. -/
example : ((PdcpEntity.new drbConfig noSecurity).recvPdu plainFunctions [0x88, 0, 1]).rxList.map
    (·.count) = [0xfffff800] := by
  decide

end LlmHric.Pdcp
