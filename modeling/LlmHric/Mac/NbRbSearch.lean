import Mathlib.Data.Nat.Prime.Basic
import LlmHric.Mac.ResourceBlocks
import LlmHric.Mac.TransportBlock

/-! `nr_find_nb_rb` bisects the range of sizes on offer. The transport block size does not grow with
every resource block, and with transform precoding only sizes with the prime factors 2, 3, and 5 are
allowed, so the midpoint is moved up to the next one of them.

The loops are given a number of rounds here, and have no value when they need more. -/

namespace LlmHric.Mac

/-- The inner loop of the binary search. -/
def nextMultiple235Within : ℕ → ℕ → Option ℕ
  | 0, _ => none
  | rounds + 1, p => if multiple235 p then some p else nextMultiple235Within rounds (p + 1)

/-- The size that is tried between `lo` and `hi`. -/
def probeWithin (rounds : ℕ) (precoding : Bool) (lo hi : ℕ) : Option ℕ :=
  if precoding then nextMultiple235Within rounds ((hi + lo) / 2) else some ((hi + lo) / 2)

/-- The binary search between `lo` and `hi`. -/
def searchNbRbWithin (precoding : Bool) (tbs : ℕ → ℕ) (bytes : ℕ) : ℕ → ℕ → ℕ → Option ℕ
  | 0, _, _ => none
  | rounds + 1, lo, hi =>
    if lo + 1 < hi then do
      let p ← probeWithin (rounds + 1) precoding lo hi
      if p = hi then some hi
      else if bytes = tbs p then some p
      else if bytes < tbs p then searchNbRbWithin precoding tbs bytes rounds lo p
      else searchNbRbWithin precoding tbs bytes rounds p hi
    else some hi

/-- The first loop, which goes down to a size that is allowed. -/
def upperBound (precoding : Bool) (nbRbMax : ℕ) : Option ℕ :=
  if precoding then multiple235Below nbRbMax else some nbRbMax

/-- `nr_find_nb_rb`: whether the bytes fit, the transport block size and the number of resource
blocks. -/
def nrFindNbRbWithin (rounds : ℕ) (precoding : Bool) (tbs : ℕ → ℕ) (bytes nbRbMin nbRbMax : ℕ) :
    Option (Bool × ℕ × ℕ) := do
  let nbRbMax ← upperBound precoding nbRbMax
  if bytes > tbs nbRbMax then some (false, tbs nbRbMax, nbRbMax)
  else if bytes = tbs nbRbMax then some (true, tbs nbRbMax, nbRbMax)
  else if bytes ≤ tbs nbRbMin then some (true, tbs nbRbMin, nbRbMin)
  else
    let hi ← searchNbRbWithin precoding tbs bytes rounds nbRbMin nbRbMax
    some (decide (tbs hi ≥ bytes) && decide (hi ≤ nbRbMax), tbs hi, hi)

/-- The numbers of resource blocks that transform precoding allows. -/
def Smooth235 (n : ℕ) : Prop := ∃ a b c, n = 2 ^ a * 3 ^ b * 5 ^ c

theorem divideOut_spec {q fuel n : ℕ} (hq : 2 ≤ q) (hpos : 0 < n) (h : n ≤ fuel) :
    ∃ k, n = q ^ k * divideOut q fuel n ∧ ¬ q ∣ divideOut q fuel n := by
  induction fuel generalizing n with
  | zero => omega
  | succ fuel ih =>
    rw [divideOut]
    by_cases hdvd : n % q = 0
    · rw [if_pos hdvd]
      have hmul : q * (n / q) = n := Nat.mul_div_cancel' (Nat.dvd_of_mod_eq_zero hdvd)
      have hpos' : 0 < n / q := Nat.div_pos (Nat.le_of_dvd hpos (Nat.dvd_of_mod_eq_zero hdvd))
        (by omega)
      have hlt : n / q < n := Nat.div_lt_self hpos (by omega)
      obtain ⟨k, hk, hnot⟩ := ih hpos' (by omega)
      refine ⟨k + 1, ?_, hnot⟩
      calc n = q * (n / q) := hmul.symm
        _ = q * (q ^ k * divideOut q fuel (n / q)) := congrArg (q * ·) hk
        _ = q ^ (k + 1) * divideOut q fuel (n / q) := by
          rw [Nat.pow_succ, Nat.mul_comm (q ^ k) q, Nat.mul_assoc]
    · rw [if_neg hdvd]
      refine ⟨0, by rw [Nat.pow_zero, Nat.one_mul], fun hd => hdvd (Nat.mod_eq_zero_of_dvd hd)⟩

/-- The test finds the products of 2, 3, and 5. -/
theorem multiple235_iff {n : ℕ} (hpos : 0 < n) : multiple235 n = true ↔ Smooth235 n := by
  obtain ⟨a, ha, h2⟩ := divideOut_spec (q := 2) (le_refl 2) hpos (le_refl n)
  obtain ⟨x, hx⟩ : ∃ x, x = divideOut 2 n n := ⟨_, rfl⟩
  rw [← hx] at ha h2
  have hxpos : 0 < x := Nat.pos_of_ne_zero fun hzero => h2 (hzero ▸ Nat.dvd_zero 2)
  have hxle : x ≤ n := Nat.le_of_dvd hpos (Dvd.intro_left _ ha.symm)
  obtain ⟨b, hb, h3⟩ := divideOut_spec (q := 3) (by decide) hxpos hxle
  obtain ⟨y, hy⟩ : ∃ y, y = divideOut 3 n x := ⟨_, rfl⟩
  rw [← hy] at hb h3
  have hypos : 0 < y := Nat.pos_of_ne_zero fun hzero => h3 (hzero ▸ Nat.dvd_zero 3)
  have hyle : y ≤ n := (Nat.le_of_dvd hxpos (Dvd.intro_left _ hb.symm)).trans hxle
  obtain ⟨c, hc, h5⟩ := divideOut_spec (q := 5) (by decide) hypos hyle
  obtain ⟨z, hz⟩ : ∃ z, z = divideOut 5 n y := ⟨_, rfl⟩
  rw [← hz] at hc h5
  have hn : n = 2 ^ a * 3 ^ b * 5 ^ c * z := by
    rw [ha, hb, hc, Nat.mul_assoc, Nat.mul_assoc]
  rw [multiple235, ← hx, ← hy, ← hz, beq_iff_eq]
  constructor
  · rintro rfl
    exact ⟨a, b, c, by rw [hn, Nat.mul_one]⟩
  · rintro ⟨a', b', c', hsmooth⟩
    -- what is left has none of the three factors
    have hzy : z ∣ y := Dvd.intro_left _ hc.symm
    have hyx : y ∣ x := Dvd.intro_left _ hb.symm
    have hcop2 : Nat.Coprime z (2 ^ a') := Nat.Coprime.pow_right _
      ((Nat.Prime.coprime_iff_not_dvd Nat.prime_two).mpr fun hd =>
          h2 (hd.trans (hzy.trans hyx))).symm
    have hcop3 : Nat.Coprime z (3 ^ b') := Nat.Coprime.pow_right _
      ((Nat.Prime.coprime_iff_not_dvd Nat.prime_three).mpr fun hd => h3 (hd.trans hzy)).symm
    have hcop5 : Nat.Coprime z (5 ^ c') := Nat.Coprime.pow_right _
      ((Nat.Prime.coprime_iff_not_dvd Nat.prime_five).mpr h5).symm
    refine Nat.Coprime.eq_one_of_dvd ((hcop2.mul_right hcop3).mul_right hcop5) ?_
    rw [← hsmooth, hn]
    exact Dvd.intro_left _ rfl

/-! ### The bisection -/

section

variable {precoding : Bool} {tbs : ℕ → ℕ} {bytes rounds lo hi p nbRbMin nbRbMax : ℕ}

/-- The inner loop ends at the upper bound at the latest. -/
theorem nextMultiple235Within_eq (hhi : multiple235 hi = true) (hp : p ≤ hi)
    (hrounds : hi < p + rounds) :
    nextMultiple235Within rounds p = some (nextMultiple235 (hi - p) p) := by
  induction rounds generalizing p with
  | zero => omega
  | succ rounds ih =>
    rw [nextMultiple235Within]
    obtain ⟨fuel, hfuel⟩ : ∃ fuel, fuel = hi - p := ⟨_, rfl⟩
    rw [← hfuel]
    by_cases hmult : multiple235 p = true
    · rw [if_pos hmult]
      cases fuel with
      | zero => rfl
      | succ fuel => rw [nextMultiple235, if_pos hmult]
    · rw [if_neg hmult]
      cases fuel with
      | zero =>
        have heq : p = hi := by omega
        exact absurd (heq ▸ hhi) hmult
      | succ fuel =>
        have hstep : hi - (p + 1) = fuel := by omega
        rw [nextMultiple235, if_neg hmult, ih (by omega) (by omega), hstep]

/-- The midpoint, moved up where only some sizes are allowed. -/
def probe (precoding : Bool) (lo hi : ℕ) : ℕ :=
  if precoding then nextMultiple235 (hi - (hi + lo) / 2) ((hi + lo) / 2) else (hi + lo) / 2

theorem probe_mem (precoding : Bool) (hlt : lo + 1 < hi) :
    lo < probe precoding lo hi ∧ probe precoding lo hi ≤ hi := by
  rw [probe]
  split_ifs
  · have hlow := le_nextMultiple235 (hi - (hi + lo) / 2) ((hi + lo) / 2)
    have hhigh := nextMultiple235_le (hi - (hi + lo) / 2) ((hi + lo) / 2)
    omega
  · omega

theorem multiple235_probe (hhi : multiple235 hi = true) (hlt : lo + 1 < hi) :
    multiple235 (probe true lo hi) = true :=
  multiple235_nextMultiple235 hhi (by omega)

theorem probe_eq_midpoint : probe false lo hi = (hi + lo) / 2 := rfl

theorem searchNbRbWithin_succ (hmult : precoding = true → multiple235 hi = true)
    (hlt : lo + 1 < hi) (hrounds : hi ≤ lo + rounds + 1) :
    searchNbRbWithin precoding tbs bytes (rounds + 1) lo hi =
      if probe precoding lo hi = hi then some hi
      else if bytes = tbs (probe precoding lo hi) then some (probe precoding lo hi)
      else if bytes < tbs (probe precoding lo hi) then
        searchNbRbWithin precoding tbs bytes rounds lo (probe precoding lo hi)
      else searchNbRbWithin precoding tbs bytes rounds (probe precoding lo hi) hi := by
  have hprobe : probeWithin (rounds + 1) precoding lo hi = some (probe precoding lo hi) := by
    rw [probeWithin, probe]
    split_ifs with hprecoding
    · exact nextMultiple235Within_eq (hmult hprecoding) (by omega) (by omega)
    · rfl
  rw [searchNbRbWithin, if_pos hlt, hprobe, Option.bind_eq_bind, Option.bind_some]

/-- More rounds than sizes change nothing. -/
theorem searchNbRbWithin_of_le (hmult : precoding = true → multiple235 hi = true) (hlt : lo < hi)
    {rounds' : ℕ} (hrounds : hi ≤ lo + rounds) (hle : rounds ≤ rounds') :
    searchNbRbWithin precoding tbs bytes rounds' lo hi =
      searchNbRbWithin precoding tbs bytes rounds lo hi := by
  induction rounds generalizing lo hi rounds' with
  | zero => omega
  | succ rounds ih =>
    obtain ⟨rounds', rfl⟩ := Nat.exists_eq_add_of_le' (Nat.lt_of_lt_of_le (Nat.succ_pos _) hle)
    by_cases hgo : lo + 1 < hi
    · obtain ⟨hlow, hhigh⟩ := probe_mem precoding hgo
      have hpmult : precoding = true → multiple235 (probe precoding lo hi) = true := by
        rintro rfl
        exact multiple235_probe (hmult rfl) hgo
      rw [searchNbRbWithin_succ hmult hgo hrounds, searchNbRbWithin_succ hmult hgo (by omega)]
      split_ifs with hend
      · rfl
      · rfl
      · exact ih hpmult hlow (by omega) (Nat.le_of_succ_le_succ hle)
      · exact ih hmult (lt_of_le_of_ne hhigh hend) (by omega) (Nat.le_of_succ_le_succ hle)
    · rw [searchNbRbWithin, if_neg hgo, searchNbRbWithin, if_neg hgo]

/-- The search ends, with a size above `lo` that carries the bytes. Either it carries exactly as
many, or the one below does not carry them, unless sizes have been left out. -/
theorem searchNbRbWithin_spec (hmult : precoding = true → multiple235 hi = true) (hlt : lo < hi)
    (hlo : tbs lo < bytes) (hhi : bytes < tbs hi) (hrounds : hi ≤ lo + rounds) :
    ∃ r, searchNbRbWithin precoding tbs bytes rounds lo hi = some r ∧ lo < r ∧ r ≤ hi ∧
      bytes ≤ tbs r ∧ (precoding = true → multiple235 r = true) ∧
      (precoding = false → tbs r = bytes ∨ tbs (r - 1) < bytes) := by
  induction rounds generalizing lo hi with
  | zero => omega
  | succ rounds ih =>
    by_cases hgo : lo + 1 < hi
    · obtain ⟨hlow, hhigh⟩ := probe_mem precoding hgo
      rw [searchNbRbWithin_succ hmult hgo hrounds]
      obtain ⟨p, hp⟩ : ∃ p, p = probe precoding lo hi := ⟨_, rfl⟩
      have hpmult : precoding = true → multiple235 p = true := by
        rintro rfl
        exact hp ▸ multiple235_probe (hmult rfl) hgo
      have hpne : precoding = false → p ≠ hi := by
        rintro rfl
        rw [hp, probe_eq_midpoint]
        omega
      rw [← hp] at hlow hhigh ⊢
      split_ifs with hend hexact hbelow
      · exact ⟨hi, rfl, hlt, le_rfl, hhi.le, hmult, fun hplain => absurd hend (hpne hplain)⟩
      · exact ⟨p, rfl, hlow, hhigh, hexact.le, hpmult, fun _ => .inl hexact.symm⟩
      · obtain ⟨r, hr, hlr, hrp, hrest⟩ := ih hpmult hlow hlo hbelow (by omega)
        exact ⟨r, hr, hlr, hrp.trans hhigh, hrest⟩
      · have habove : tbs p < bytes := by omega
        obtain ⟨r, hr, hlr, hrest⟩ := ih hmult (lt_of_le_of_ne hhigh hend) habove hhi (by omega)
        exact ⟨r, hr, hlow.trans hlr, hrest⟩
    · rw [searchNbRbWithin, if_neg hgo]
      have hnext : hi - 1 = lo := by omega
      exact ⟨hi, rfl, hlt, le_rfl, hhi.le, hmult, fun _ => .inr (hnext ▸ hlo)⟩

/-- The searches of the schedulers' model are this one. -/
theorem searchNbRbWithin_false (hlt : lo < hi) (hrounds : hi ≤ lo + rounds) :
    searchNbRbWithin false tbs bytes rounds lo hi = some (searchNbRb tbs bytes rounds lo hi) := by
  induction rounds generalizing lo hi with
  | zero => omega
  | succ rounds ih =>
    by_cases hgo : lo + 1 < hi
    · rw [searchNbRbWithin_succ (fun h => Bool.noConfusion h) hgo hrounds, probe_eq_midpoint,
        if_neg (by omega), searchNbRb, if_pos hgo]
      dsimp only
      split_ifs
      · rfl
      · exact ih (by omega) (by omega)
      · exact ih (by omega) (by omega)
    · rw [searchNbRbWithin, if_neg hgo, searchNbRb, if_neg hgo]

theorem searchNbRbWithin_true (hmult : multiple235 hi = true) (hlt : lo < hi)
    (hrounds : hi ≤ lo + rounds) :
    searchNbRbWithin true tbs bytes rounds lo hi =
      some (searchNbRbPrecoded tbs bytes rounds lo hi) := by
  induction rounds generalizing lo hi with
  | zero => omega
  | succ rounds ih =>
    by_cases hgo : lo + 1 < hi
    · obtain ⟨hlow, hhigh⟩ := probe_mem true hgo
      have hpmult := multiple235_probe hmult hgo
      have hprobe : probe true lo hi = nextMultiple235 (hi - (hi + lo) / 2) ((hi + lo) / 2) := rfl
      rw [searchNbRbWithin_succ (fun _ => hmult) hgo hrounds, searchNbRbPrecoded, if_pos hgo]
      dsimp only
      rw [← hprobe]
      split_ifs
      · rfl
      · rfl
      · exact ih hpmult hlow (by omega)
      · exact ih hmult (by omega) (by omega)
    · rw [searchNbRbWithin, if_neg hgo, searchNbRbPrecoded, if_neg hgo]

/-! ### The search -/

/-- The first loop stops at a size that is allowed. -/
theorem le_multiple235Below {m n top : ℕ} (hm : multiple235 m = true) (hmn : m ≤ n)
    (htop : multiple235Below n = some top) : m ≤ top := by
  induction n with
  | zero => cases htop
  | succ n ih =>
    rw [multiple235Below] at htop
    split_ifs at htop with hn
    · exact Option.some.inj htop ▸ hmn
    · refine ih (Nat.le_of_lt_succ (lt_of_le_of_ne hmn ?_)) htop
      rintro rfl
      exact hn hm

theorem exists_upperBound (precoding : Bool) (hpos : 0 < nbRbMax) :
    ∃ top, upperBound precoding nbRbMax = some top ∧ 0 < top ∧ top ≤ nbRbMax ∧
      (precoding = true → multiple235 top = true) := by
  cases precoding with
  | false => exact ⟨nbRbMax, rfl, hpos, le_rfl, fun h => Bool.noConfusion h⟩
  | true =>
    obtain ⟨top, htop⟩ := Option.isSome_iff_exists.mp (multiple235Below_isSome hpos)
    have hone : 1 ≤ top := le_multiple235Below rfl hpos htop
    exact ⟨top, htop, hone, multiple235Below_le htop, fun _ => multiple235_of_below htop⟩

/-- What the search writes: the size that is found, its transport block, and whether that carries
the bytes. The largest size that may be used is `top`. -/
structure Found (precoding : Bool) (tbs : ℕ → ℕ) (bytes nbRbMin top nbRb : ℕ) : Prop where
  mem : nbRbMin ≤ top → nbRbMin ≤ nbRb ∧ nbRb ≤ top
  of_lt : tbs top < bytes → nbRb = top
  of_le : bytes ≤ tbs top → bytes ≤ tbs nbRb
  allowed : precoding = true → multiple235 nbRbMin = true → multiple235 nbRb = true
  least : precoding = false → nbRbMin ≤ top → bytes ≤ tbs top →
    tbs nbRb = bytes ∨ nbRb = nbRbMin ∨ tbs (nbRb - 1) < bytes

theorem exists_found (tbs : ℕ → ℕ) (bytes nbRbMin : ℕ) {top : ℕ}
    (htop : upperBound precoding nbRbMax = some top) (hle : top ≤ nbRbMax)
    (hmult : precoding = true → multiple235 top = true) :
    ∃ nbRb, Found precoding tbs bytes nbRbMin top nbRb ∧ ∀ rounds, nbRbMax < rounds →
      nrFindNbRbWithin rounds precoding tbs bytes nbRbMin nbRbMax =
        some (decide (bytes ≤ tbs nbRb), tbs nbRb, nbRb) := by
  by_cases hsmall : bytes > tbs top
  · refine ⟨top, ⟨fun h => ⟨h, le_rfl⟩, fun _ => rfl, id, fun h _ => hmult h,
      fun _ _ h => absurd hsmall (Nat.not_lt.mpr h)⟩, fun rounds _ => ?_⟩
    rw [nrFindNbRbWithin, htop, Option.bind_eq_bind, Option.bind_some, if_pos hsmall,
      decide_eq_false (Nat.not_le.mpr hsmall)]
  by_cases hexact : bytes = tbs top
  · refine ⟨top, ⟨fun h => ⟨h, le_rfl⟩, fun _ => rfl, id, fun h _ => hmult h,
      fun _ _ _ => .inl hexact.symm⟩, fun rounds _ => ?_⟩
    rw [nrFindNbRbWithin, htop, Option.bind_eq_bind, Option.bind_some, if_neg hsmall, if_pos hexact,
      decide_eq_true hexact.le]
  by_cases hmin : bytes ≤ tbs nbRbMin
  · refine ⟨nbRbMin, ⟨fun h => ⟨le_rfl, h⟩, fun h => absurd h hsmall, fun _ => hmin,
      fun _ h => h, fun _ _ _ => .inr (.inl rfl)⟩, fun rounds _ => ?_⟩
    rw [nrFindNbRbWithin, htop, Option.bind_eq_bind, Option.bind_some, if_neg hsmall,
      if_neg hexact, if_pos hmin, decide_eq_true hmin]
  -- the bytes lie strictly between the two ends
  have hlt : bytes < tbs top := by omega
  have hsearch : ∃ nbRb, Found precoding tbs bytes nbRbMin top nbRb ∧ nbRb ≤ top ∧
      ∀ rounds, nbRbMax < rounds →
        searchNbRbWithin precoding tbs bytes rounds nbRbMin top = some nbRb := by
    rcases Nat.lt_or_ge nbRbMin top with hends | hends
    · obtain ⟨r, hr, hlow, hhigh, hfits, hrmult, hrplain⟩ :=
        searchNbRbWithin_spec hmult hends (Nat.not_le.mp hmin) hlt (Nat.le_add_left top _)
      refine ⟨r, ⟨fun _ => ⟨hlow.le, hhigh⟩, fun h => absurd h hsmall, fun _ => hfits,
        fun h _ => hrmult h, fun h _ _ => (hrplain h).imp_right .inr⟩, hhigh, fun rounds hrounds =>
          ?_⟩
      rw [searchNbRbWithin_of_le hmult hends (Nat.le_add_left top _) (by omega : top ≤ rounds), hr]
    · -- no size between them is left, the upper one is taken
      have hne : nbRbMin ≠ top := by
        rintro rfl
        exact hmin hlt.le
      refine ⟨top, ⟨fun h => absurd (le_antisymm h hends) hne, fun _ => rfl, id,
        fun h _ => hmult h, fun _ h => absurd (le_antisymm h hends) hne⟩, le_rfl,
        fun rounds hrounds => ?_⟩
      obtain ⟨rounds, rfl⟩ := Nat.exists_eq_add_of_le' (Nat.lt_of_le_of_lt (Nat.zero_le _) hrounds)
      rw [searchNbRbWithin, if_neg (by omega)]
  obtain ⟨r, hfound, hrtop, hr⟩ := hsearch
  refine ⟨r, hfound, fun rounds hrounds => ?_⟩
  rw [nrFindNbRbWithin, htop, Option.bind_eq_bind, Option.bind_some, if_neg hsmall, if_neg hexact,
    if_neg hmin, hr rounds hrounds, Option.bind_some, decide_eq_true hrtop, Bool.and_true]

theorem searchNbRb_of_le (h : hi ≤ lo + 1) (fuel : ℕ) : searchNbRb tbs bytes fuel lo hi = hi := by
  cases fuel with
  | zero => rfl
  | succ fuel => rw [searchNbRb, if_neg (Nat.not_lt.mpr h)]

theorem searchNbRbPrecoded_of_le (h : hi ≤ lo + 1) (fuel : ℕ) :
    searchNbRbPrecoded tbs bytes fuel lo hi = hi := by
  cases fuel with
  | zero => rfl
  | succ fuel => rw [searchNbRbPrecoded, if_neg (Nat.not_lt.mpr h)]

/-- The bisection of the schedulers' model. -/
theorem searchNbRbWithin_eq (hmult : precoding = true → multiple235 hi = true) (hhi : hi < rounds) :
    searchNbRbWithin precoding tbs bytes rounds lo hi =
      some (if precoding then searchNbRbPrecoded tbs bytes hi lo hi
        else searchNbRb tbs bytes hi lo hi) := by
  rcases Nat.lt_or_ge lo hi with hlt | hge
  · rw [searchNbRbWithin_of_le hmult hlt (Nat.le_add_left hi lo) hhi.le]
    cases precoding with
    | false => exact searchNbRbWithin_false hlt (Nat.le_add_left hi lo)
    | true => exact searchNbRbWithin_true (hmult rfl) hlt (Nat.le_add_left hi lo)
  · obtain ⟨rounds, rfl⟩ := Nat.exists_eq_add_of_le' (Nat.lt_of_le_of_lt (Nat.zero_le _) hhi)
    rw [searchNbRbWithin, if_neg (by omega), searchNbRb_of_le (by omega),
      searchNbRbPrecoded_of_le (by omega), ite_self]

/-- The search that the schedulers use is the one whose loops end. -/
theorem nrFindNbRbWithin_eq (hrounds : nbRbMax < rounds) :
    nrFindNbRbWithin rounds precoding tbs bytes nbRbMin nbRbMax =
      nrFindNbRbUl precoding tbs bytes nbRbMin nbRbMax := by
  cases precoding with
  | false =>
    have hsearch : searchNbRbWithin false tbs bytes rounds nbRbMin nbRbMax =
        some (searchNbRb tbs bytes nbRbMax nbRbMin nbRbMax) :=
      searchNbRbWithin_eq (fun h => Bool.noConfusion h) hrounds
    rw [nrFindNbRbWithin, upperBound, if_neg Bool.false_ne_true, Option.bind_eq_bind,
      Option.bind_some, hsearch, nrFindNbRbUl, if_neg Bool.false_ne_true, nrFindNbRb]
    split_ifs <;> rfl
  | true =>
    rw [nrFindNbRbWithin, upperBound, if_pos rfl, nrFindNbRbUl, if_pos rfl, nrFindNbRbPrecoded]
    cases htop : multiple235Below nbRbMax with
    | none => rfl
    | some top =>
      have hsearch : searchNbRbWithin true tbs bytes rounds nbRbMin top =
          some (searchNbRbPrecoded tbs bytes top nbRbMin top) :=
        searchNbRbWithin_eq (fun _ => multiple235_of_below htop)
          ((multiple235Below_le htop).trans_lt hrounds)
      rw [Option.bind_eq_bind, Option.bind_some, hsearch]
      rfl

end

/-! ### Transport blocks -/

/-- The transport block size in bytes, as the search computes it. -/
def nrTbsBytes (Qm R nbSymbSch nbDmrsPrb nrOfLayers nbRb : ℕ) : ℕ :=
  nrComputeTbs Qm R nbRb nbSymbSch nbDmrsPrb 0 0 nrOfLayers >>> 3

theorem nrTbsBytes_mono {Qm R nrOfLayers nbRb nbRb' : ℕ} (nbSymbSch nbDmrsPrb : ℕ) (hQm : Qm ≤ 8)
    (hR : R ≤ 15644) (hlayers : nrOfLayers ≤ 4) (hRb : nbRb ≤ 275) (hle : nbRb' ≤ nbRb) :
    nrTbsBytes Qm R nbSymbSch nbDmrsPrb nrOfLayers nbRb' ≤
      nrTbsBytes Qm R nbSymbSch nbDmrsPrb nrOfLayers nbRb := by
  rw [nrTbsBytes, nrTbsBytes, Nat.shiftRight_eq_div_pow, Nat.shiftRight_eq_div_pow]
  exact Nat.div_le_div_right (nrComputeTbs_mono hQm hlayers hRb hR hle)

/-- With sizes that grow, a smaller number of resource blocks than the one found carries the bytes
only if both carry exactly as many. -/
theorem Found.eq_of_le {tbs : ℕ → ℕ} {bytes nbRbMin nbRbMax nbRb n : ℕ}
    (h : Found false tbs bytes nbRbMin nbRbMax nbRb) (hle : nbRbMin ≤ nbRbMax)
    (hmono : ∀ a b, a ≤ b → b ≤ nbRbMax → tbs a ≤ tbs b) (hn : nbRbMin ≤ n) (hlt : n < nbRb)
    (hfits : bytes ≤ tbs n) : tbs n = bytes ∧ tbs nbRb = bytes := by
  obtain ⟨-, hnbRb⟩ := h.mem hle
  have hmax : bytes ≤ tbs nbRbMax := hfits.trans (hmono n nbRbMax (by omega) le_rfl)
  have hgrow := hmono n nbRb hlt.le hnbRb
  rcases h.least rfl hle hmax with hexact | hmin | hbelow
  · omega
  · omega
  · have hprev := hmono n (nbRb - 1) (by omega) (by omega)
    omega

/-- The search ends, whatever the rounds it is given beyond the sizes on offer. -/
theorem nrFindNbRb_spec (precoding : Bool) (Qm R nbSymbSch nbDmrsPrb nrOfLayers bytes : ℕ)
    {nbRbMin nbRbMax : ℕ} (hpos : 1 ≤ nbRbMin) (hle : nbRbMin ≤ nbRbMax) (hmax : nbRbMax ≤ 275) :
    ∃ found tbs nbRb, (∀ rounds, nbRbMax < rounds →
        nrFindNbRbWithin rounds precoding (nrTbsBytes Qm R nbSymbSch nbDmrsPrb nrOfLayers) bytes
          nbRbMin nbRbMax = some (found, tbs, nbRb)) ∧
      tbs = nrTbsBytes Qm R nbSymbSch nbDmrsPrb nrOfLayers nbRb ∧ (found = true ↔ bytes ≤ tbs) ∧
      (precoding = false → nbRbMin ≤ nbRb ∧ nbRb ≤ nbRbMax ∧
        (nrTbsBytes Qm R nbSymbSch nbDmrsPrb nrOfLayers nbRbMax < bytes → nbRb = nbRbMax) ∧
        (bytes ≤ nrTbsBytes Qm R nbSymbSch nbDmrsPrb nrOfLayers nbRbMax → bytes ≤ tbs ∧
          (tbs = bytes ∨ nbRb = nbRbMin ∨
            nrTbsBytes Qm R nbSymbSch nbDmrsPrb nrOfLayers (nbRb - 1) < bytes)) ∧
        (Qm ≤ 8 → R ≤ 15644 → nrOfLayers ≤ 4 → ∀ n, nbRbMin ≤ n → n ≤ nbRbMax →
          bytes ≤ nrTbsBytes Qm R nbSymbSch nbDmrsPrb nrOfLayers n → bytes ≤ tbs ∧
            (n < nbRb → nrTbsBytes Qm R nbSymbSch nbDmrsPrb nrOfLayers n = bytes ∧ tbs = bytes))) ∧
      (precoding = true → Smooth235 nbRbMin →
        nbRbMin ≤ nbRb ∧ nbRb ≤ nbRbMax ∧ Smooth235 nbRb) := by
  obtain ⟨top, htop, htoppos, htople, hmult⟩ := exists_upperBound precoding (hpos.trans hle)
  obtain ⟨nbRb, hfound, hrun⟩ := exists_found
    (nrTbsBytes Qm R nbSymbSch nbDmrsPrb nrOfLayers) bytes nbRbMin htop htople hmult
  refine ⟨_, _, nbRb, hrun, rfl, decide_eq_true_iff, ?_, ?_⟩
  · rintro rfl
    obtain rfl := Option.some.inj htop
    obtain ⟨hlow, hhigh⟩ := hfound.mem hle
    refine ⟨hlow, hhigh, hfound.of_lt, fun h => ⟨hfound.of_le h, hfound.least rfl hle h⟩, ?_⟩
    intro hQm hR hlayers n hn hnmax hfits
    have hmono : ∀ a b, a ≤ b → b ≤ nbRbMax → _ := fun a b hab hb =>
      nrTbsBytes_mono nbSymbSch nbDmrsPrb hQm hR hlayers (hb.trans hmax) hab
    exact ⟨hfound.of_le (hfits.trans (hmono n nbRbMax hnmax le_rfl)),
      fun hlt => hfound.eq_of_le hle hmono hn hlt hfits⟩
  · rintro rfl hsmooth
    have hmin := (multiple235_iff hpos).mpr hsmooth
    obtain ⟨hlow, hhigh⟩ := hfound.mem (le_multiple235Below hmin hle htop)
    exact ⟨hlow, hhigh.trans htople,
      (multiple235_iff (hpos.trans hlow)).mp (hfound.allowed rfl hmin)⟩

/-- The size for 100 bytes between 5 and 50 resource blocks. -/
theorem nrFindNbRb_spec_hundred_bytes :
    ∃ found tbs nbRb, (∀ rounds, 50 < rounds →
        nrFindNbRbWithin rounds true (nrTbsBytes 2 1930 14 12 1) 100 5 50 =
          some (found, tbs, nbRb)) ∧
      (found = true ↔ 100 ≤ tbs) ∧ 5 ≤ nbRb ∧ nbRb ≤ 50 ∧ Smooth235 nbRb := by
  obtain ⟨found, tbs, nbRb, hrun, -, hfits, -, hprecoding⟩ :=
    @nrFindNbRb_spec true 2 1930 14 12 1 100 5 50 (by decide) (by decide) (by decide)
  exact ⟨found, tbs, nbRb, hrun, hfits, hprecoding rfl ⟨0, 0, 1, rfl⟩⟩

/-- The number that is found is always in the range and, without transform precoding, the least one
that carries the bytes; with transform precoding it is an allowed one. -/
def NbRbAlwaysLeast : Prop :=
  ∀ precoding Qm R nbSymbSch nbDmrsPrb nrOfLayers bytes nbRbMin nbRbMax, 1 ≤ nbRbMin →
    nbRbMin ≤ nbRbMax → nbRbMax ≤ 275 →
    ∃ found tbs nbRb, (∀ rounds, nbRbMax < rounds →
        nrFindNbRbWithin rounds precoding (nrTbsBytes Qm R nbSymbSch nbDmrsPrb nrOfLayers) bytes
          nbRbMin nbRbMax = some (found, tbs, nbRb)) ∧
      nbRbMin ≤ nbRb ∧ nbRb ≤ nbRbMax ∧
      tbs = nrTbsBytes Qm R nbSymbSch nbDmrsPrb nrOfLayers nbRb ∧ (found = true ↔ bytes ≤ tbs) ∧
      (precoding = false →
        (∀ n, nbRbMin ≤ n → n < nbRb →
          nrTbsBytes Qm R nbSymbSch nbDmrsPrb nrOfLayers n < bytes) ∧
        (tbs < bytes → nbRb = nbRbMax)) ∧
      (precoding = true → Smooth235 nbRb)

/-- At a low code rate one resource block carries as many bytes as two, and both are taken. -/
theorem not_nbRbAlwaysLeast : ¬ NbRbAlwaysLeast := by
  intro hleast
  obtain ⟨found, tbs, nbRb, hrun, -, -, -, -, hplain, -⟩ :=
    hleast false 2 300 14 12 1 3 1 2 (by decide) (by decide) (by decide)
  have hthree : nrFindNbRbWithin 3 false (nrTbsBytes 2 300 14 12 1) 3 1 2 = some (true, 3, 2) := by
    decide
  have hfound := hrun 3 (by decide)
  rw [hthree] at hfound
  obtain ⟨-, -, rfl⟩ : true = found ∧ 3 = tbs ∧ 2 = nbRb := by
    simpa using hfound
  exact absurd ((hplain rfl).1 1 (by decide) (by decide)) (by decide)

/-- The lower bound is taken although transform precoding does not allow it. -/
example : nrFindNbRbWithin 13 true (nrTbsBytes 2 1200 14 12 1) 8 7 12 = some (true, 32, 7) := by
  decide

end LlmHric.Mac
