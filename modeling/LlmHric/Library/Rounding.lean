import Mathlib.Algebra.Order.Floor.Div
import Mathlib.Algebra.Order.Ring.Nat
import Mathlib.Tactic.Common

/-! A size is rounded to a multiple of a power of two that grows with the size, or to a size that
can be split into equal blocks. Both keep the order of the sizes. -/

namespace Rounding

/-! ### Multiples of a power of two -/

/-- Without the last `n` bits. -/
def truncate (n x : ℕ) : ℕ := x >>> n <<< n

/-- The nearest multiple of `2 ^ n`, the higher one of two that are equally near. -/
def nearest (n x : ℕ) : ℕ := ((x <<< 1 + 1 <<< n) / (1 <<< n <<< 1)) <<< n

/-- The nearest multiple of `2 ^ n`, the one with the even quotient of two that are equally near. -/
def nearestEven (n x : ℕ) : ℕ :=
  let q := x / 2 ^ n
  let r := x % 2 ^ n
  if 2 * r < 2 ^ n ∨ 2 * r = 2 ^ n ∧ q % 2 = 0 then q * 2 ^ n else (q + 1) * 2 ^ n

/-- A number rounded to `bits` leading bits. -/
def leadingBits (bits x : ℕ) : ℕ := nearestEven (x.log2 + 1 - bits) x

/-- A rounding to multiples of `2 ^ n` keeps the order, also with respect to these multiples. -/
structure Rounds (round : ℕ → ℕ → ℕ) : Prop where
  mono : ∀ n {x y}, x ≤ y → round n x ≤ round n y
  le_round : ∀ n {a x}, 2 ^ n ∣ a → a ≤ x → a ≤ round n x
  round_le : ∀ n {a x}, 2 ^ n ∣ a → x ≤ a → round n x ≤ a

theorem truncate_eq (n x : ℕ) : truncate n x = x / 2 ^ n * 2 ^ n := by
  rw [truncate, Nat.shiftRight_eq_div_pow, Nat.shiftLeft_eq]

theorem nearest_eq (n x : ℕ) : nearest n x = (2 * x + 2 ^ n) / (2 * 2 ^ n) * 2 ^ n := by
  rw [nearest, Nat.shiftLeft_eq, Nat.shiftLeft_eq, Nat.shiftLeft_eq, Nat.shiftLeft_eq, Nat.pow_one,
    Nat.one_mul, Nat.mul_comm x, Nat.mul_comm (2 ^ n) 2]

theorem truncate_le (n x : ℕ) : truncate n x ≤ x := by
  rw [truncate_eq]
  exact Nat.div_mul_le_self x _

theorem rounds_truncate : Rounds truncate where
  mono n x y h := by
    rw [truncate_eq, truncate_eq]
    exact Nat.mul_le_mul_right _ (Nat.div_le_div_right h)
  le_round n a x hdvd h := by
    rw [truncate_eq]
    calc a = a / 2 ^ n * 2 ^ n := (Nat.div_mul_cancel hdvd).symm
      _ ≤ x / 2 ^ n * 2 ^ n := Nat.mul_le_mul_right _ (Nat.div_le_div_right h)
  round_le n a x _ h := (truncate_le n x).trans h

theorem rounds_nearest : Rounds nearest where
  mono n x y h := by
    rw [nearest_eq, nearest_eq]
    exact Nat.mul_le_mul_right _ (Nat.div_le_div_right (by omega))
  le_round n a x hdvd h := by
    obtain ⟨q, rfl⟩ := hdvd
    have hpos : 0 < 2 ^ n := Nat.two_pow_pos n
    rw [nearest_eq, Nat.mul_comm (2 ^ n) q]
    refine Nat.mul_le_mul_right _ ((Nat.le_div_iff_mul_le (by omega)).mpr ?_)
    calc q * (2 * 2 ^ n) = 2 * (2 ^ n * q) := by ac_rfl
      _ ≤ 2 * x + 2 ^ n := by omega
  round_le n a x hdvd h := by
    obtain ⟨q, rfl⟩ := hdvd
    have hpos : 0 < 2 ^ n := Nat.two_pow_pos n
    rw [nearest_eq, Nat.mul_comm (2 ^ n) q]
    refine Nat.mul_le_mul_right _ (Nat.le_of_lt_succ ((Nat.div_lt_iff_lt_mul (by omega)).mpr ?_))
    calc 2 * x + 2 ^ n < 2 * (2 ^ n * q) + 2 * 2 ^ n := by omega
      _ = (q + 1) * (2 * 2 ^ n) := by rw [Nat.add_mul, Nat.one_mul]; ac_rfl

theorem le_nearestEven (n : ℕ) {a x : ℕ} (hdvd : 2 ^ n ∣ a) (h : a ≤ x) : a ≤ nearestEven n x := by
  have hdown : a ≤ x / 2 ^ n * 2 ^ n := by
    calc a = a / 2 ^ n * 2 ^ n := (Nat.div_mul_cancel hdvd).symm
      _ ≤ x / 2 ^ n * 2 ^ n := Nat.mul_le_mul_right _ (Nat.div_le_div_right h)
  dsimp only [nearestEven]
  split_ifs
  · exact hdown
  · exact hdown.trans (Nat.mul_le_mul_right _ (Nat.le_succ _))

/-- A power of two that is not above a number is not above what the number is rounded to. -/
theorem two_pow_le_leadingBits {bits k x : ℕ} (hbits : 0 < bits) (h : 2 ^ k ≤ x) :
    2 ^ k ≤ leadingBits bits x := by
  have hne : x ≠ 0 := by
    have hpos : 0 < 2 ^ k := Nat.two_pow_pos k
    omega
  have hlog : k ≤ x.log2 := (Nat.le_log2 hne).mpr h
  calc 2 ^ k ≤ 2 ^ x.log2 := Nat.pow_le_pow_right (by decide) hlog
    _ ≤ leadingBits bits x :=
      le_nearestEven _ (Nat.pow_dvd_pow 2 (by omega)) (Nat.log2_self_le hne)

/-- A number of that many bits stays as it is. -/
theorem leadingBits_of_lt {bits x : ℕ} (hbits : 0 < bits) (h : x < 2 ^ bits) :
    leadingBits bits x = x := by
  have hlog : x.log2 + 1 - bits = 0 := by
    rcases Nat.eq_zero_or_pos x with rfl | hpos
    · rw [Nat.log2_zero]
      omega
    · have hlt : x.log2 < bits := (Nat.log2_lt hpos.ne').mpr h
      omega
  rw [leadingBits, hlog]
  simp [nearestEven, Nat.mod_one]

/-- A power of two stays as it is. -/
theorem leadingBits_two_pow {bits : ℕ} (hbits : 0 < bits) (k : ℕ) :
    leadingBits bits (2 ^ k) = 2 ^ k := by
  have hdvd : 2 ^ (k + 1 - bits) ∣ 2 ^ k := Nat.pow_dvd_pow 2 (by omega)
  rw [leadingBits, Nat.log2_two_pow]
  dsimp only [nearestEven]
  rw [Nat.mod_eq_zero_of_dvd hdvd, if_pos (.inl (Nat.two_pow_pos _)), Nat.div_mul_cancel hdvd]

/-- The number of bits that are lost depends on the position of the leading one. Where it grows it
stays below that position. -/
theorem Rounds.leading_mono {round : ℕ → ℕ → ℕ} (h : Rounds round) {e : ℕ → ℕ}
    (he : ∀ k l, k < l → e k = e l ∨ (e k ≤ l ∧ e l ≤ l)) {x y : ℕ} (hxy : x ≤ y) :
    round (e x.log2) x ≤ round (e y.log2) y := by
  have hlog : x.log2 ≤ y.log2 := by
    by_cases hx : x = 0
    · rw [hx, Nat.log2_zero]
      exact Nat.zero_le _
    · exact (Nat.le_log2 (by omega)).mpr ((Nat.log2_self_le hx).trans hxy)
  rcases Nat.eq_or_lt_of_le hlog with heq | hlt
  · rw [heq]
    exact h.mono _ hxy
  rcases he _ _ hlt with heq | ⟨hx, hy⟩
  · rw [heq]
    exact h.mono _ hxy
  -- the power of two between them is a multiple for both
  have hne : y ≠ 0 := by
    rintro rfl
    rw [Nat.log2_zero] at hlt
    omega
  have hbelow : x ≤ 2 ^ y.log2 :=
    Nat.lt_log2_self.le.trans (Nat.pow_le_pow_right (by decide) hlt)
  exact (h.round_le _ (Nat.pow_dvd_pow 2 hx) hbelow).trans
    (h.le_round _ (Nat.pow_dvd_pow 2 hy) (Nat.log2_self_le hne))

/-- The number of blocks of at most `m` for a size. -/
def blocks (m x : ℕ) : ℕ := x ⌈/⌉ m

/-- The least size not below `x` that gives each block the same number of units of `u`. -/
def evenSize (u m x : ℕ) : ℕ := u * blocks m x * (x ⌈/⌉ (u * blocks m x))

variable {u m x y : ℕ}

theorem blocks_le_iff (hm : 0 < m) {c : ℕ} : blocks m x ≤ c ↔ x ≤ m * c :=
  ceilDiv_le_iff_le_smul hm

theorem blocks_pos (hm : 0 < m) (hx : 0 < x) : 0 < blocks m x := by
  by_contra hzero
  have hle := (blocks_le_iff hm).mp (Nat.not_lt.mp hzero)
  omega

theorem le_evenSize (hu : 0 < u) (hm : 0 < m) (hx : 0 < x) : x ≤ evenSize u m x :=
  le_smul_ceilDiv (Nat.mul_pos hu (blocks_pos hm hx))

theorem evenSize_le (hu : 0 < u) (hm : 0 < m) (hx : 0 < x) (hdvd : u ∣ m) :
    evenSize u m x ≤ m * blocks m x := by
  obtain ⟨q, rfl⟩ := hdvd
  have hfull : x ≤ u * q * blocks (u * q) x := (blocks_le_iff hm).mp le_rfl
  have hq : x ⌈/⌉ (u * blocks (u * q) x) ≤ q := by
    refine (ceilDiv_le_iff_le_smul (Nat.mul_pos hu (blocks_pos hm hx))).mpr ?_
    rw [smul_eq_mul, Nat.mul_right_comm]
    exact hfull
  calc evenSize u (u * q) x ≤ u * blocks (u * q) x * q := Nat.mul_le_mul_left _ hq
    _ = u * q * blocks (u * q) x := Nat.mul_right_comm _ _ _

/-- Rounding does not change the number of blocks. -/
theorem blocks_evenSize (hu : 0 < u) (hm : 0 < m) (hx : 0 < x) (hdvd : u ∣ m) :
    blocks m (evenSize u m x) = blocks m x := by
  refine Nat.le_antisymm ((blocks_le_iff hm).mpr (evenSize_le hu hm hx hdvd)) ?_
  exact (blocks_le_iff hm).mpr
    ((le_evenSize hu hm hx).trans ((blocks_le_iff hm).mp le_rfl))

theorem evenSize_mono (hu : 0 < u) (hm : 0 < m) (hx : 0 < x) (hdvd : u ∣ m) (hxy : x ≤ y) :
    evenSize u m x ≤ evenSize u m y := by
  have hblocks : blocks m x ≤ blocks m y :=
    (blocks_le_iff hm).mpr (hxy.trans ((blocks_le_iff hm).mp le_rfl))
  rcases Nat.eq_or_lt_of_le hblocks with heq | hlt
  · rw [evenSize, evenSize, heq]
    refine Nat.mul_le_mul_left _ ?_
    have hpos := Nat.mul_pos hu (blocks_pos hm (hx.trans_le hxy))
    exact (ceilDiv_le_iff_le_smul hpos).mpr (hxy.trans (le_smul_ceilDiv hpos))
  · -- the larger size does not fit into the blocks of the smaller one
    have hnot : ¬ y ≤ m * blocks m x := fun hle => absurd ((blocks_le_iff hm).mpr hle) (by omega)
    have hsmall := evenSize_le hu hm hx hdvd
    have hlarge := le_evenSize hu hm (hx.trans_le hxy)
    omega

end Rounding
