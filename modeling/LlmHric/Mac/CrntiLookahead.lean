import LlmHric.Mac.UlMacPdu

/-! A UE that comes back tells its C-RNTI in Msg3. `lcid_crnti_lookahead` searches the PDU for it
before `nr_process_mac_pdu` reads the PDU for the UE that was found, or for the new one. Both walk
over the subPDUs, but not all of them end the two walks alike. -/

namespace LlmHric.Mac

open Checked Checked.Outcome

/-- A control element with a C-RNTI: where it starts, and the number. -/
structure CrntiCe where
  start : ℕ
  crnti : UInt16
  deriving DecidableEq

/-- The control element at an index. -/
def readCrntiCe (pdu : List UInt8) (start : ℕ) : Outcome (Option CrntiCe) := do
  let hi ← byteAt pdu (start + 1)
  let lo ← byteAt pdu (start + 2)
  return some ⟨start, hi.toUInt16 <<< 8 ||| lo.toUInt16⟩

/-- The loop of `lcid_crnti_lookahead`, for a number of rounds; `none` while it has not ended. -/
def crntiLookaheadLoop (pdu : List UInt8) : ℕ → ℕ → ℕ → Option (Outcome (Option CrntiCe))
  | 0, _, _ => none
  | fuel + 1, start, pduLen =>
    if pduLen = 0 then some (.done none)
    else
      match (decodeUlMacSubPduHeader pdu start).outcome with
      | .done (headerLen, lcid, macLen) =>
        if headerLen + macLen > pduLen then some (.done none)
        else if ulSchLcid lcid = .cRnti then some (readCrntiCe pdu start)
        else if ulSchLcid lcid = .padding then some (.done none)
        else
          crntiLookaheadLoop pdu fuel (start + (macLen + headerLen)) (pduLen - (macLen + headerLen))
      | .refused => some .refused
      | .fault f => some (.fault f)

/-- `lcid_crnti_lookahead`, with the place of the control element. The code returns the number
alone, and 0 if there is none. -/
def lcidCrntiLookahead (pdu : List UInt8) (fuel : ℕ) : Option (Outcome (Option CrntiCe)) :=
  crntiLookaheadLoop pdu fuel 0 pdu.length

/-- A subPDU with a C-RNTI starts at an index, and is not cut off. -/
def CrntiAt (pdu : List UInt8) (start : ℕ) : Prop :=
  lcidAt pdu start = .cRnti ∧ subPduEnd pdu start ≤ pdu.length

instance (pdu : List UInt8) (start : ℕ) : Decidable (CrntiAt pdu start) :=
  inferInstanceAs (Decidable (_ ∧ _))

/-- The number in the subPDU at an index. -/
def crntiAt (pdu : List UInt8) (start : ℕ) : CrntiCe :=
  ⟨start, (pdu.getD (start + 1) 0).toUInt16 <<< 8 ||| (pdu.getD (start + 2) 0).toUInt16⟩

/-- The first C-RNTI among the subPDUs that are visited. -/
def firstCrnti (pdu : List UInt8) (visits : List SubPdu) : Option CrntiCe :=
  (visits.find? fun v => CrntiAt pdu v.start).map fun v => crntiAt pdu v.start

def FindsVisited (pdu : List UInt8) (visits : List SubPdu) (found : Outcome (Option CrntiCe)) :
    Prop :=
  ∀ ce, found = .done (some ce) ↔ firstCrnti pdu visits = some ce

/-- The search leads from an index to a C-RNTI. -/
inductive LookaheadMeets (pdu : List UInt8) : ℕ → ℕ → Prop
  | here {start : ℕ} (hin : start < pdu.length) (hcrnti : CrntiAt pdu start) :
      LookaheadMeets pdu start start
  | next {start pos : ℕ} (hin : start < pdu.length) (hend : subPduEnd pdu start ≤ pdu.length)
      (hcrnti : lcidAt pdu start ≠ .cRnti) (hpadding : lcidAt pdu start ≠ .padding)
      (hnext : LookaheadMeets pdu (subPduEnd pdu start) pos) : LookaheadMeets pdu start pos

/-- Where `nr_process_mac_pdu` looks for the next subPDU. -/
def nextAt (pdu : List UInt8) (start : ℕ) : ℕ := start + headerSize pdu start + advanceAt pdu start

/-- `nr_process_mac_pdu` gets from an index to its first C-RNTI, if no assertion fails. -/
inductive ReaderMeets (pdu : List UInt8) : ℕ → ℕ → Prop
  | here {start : ℕ} (hin : start < pdu.length) (hcrnti : CrntiAt pdu start) :
      ReaderMeets pdu start start
  | next {start pos : ℕ} (hin : start < pdu.length) (hend : subPduEnd pdu start ≤ pdu.length)
      (hcrnti : lcidAt pdu start ≠ .cRnti) (hzero : ¬ AllZero pdu start)
      (hnext : ReaderMeets pdu (nextAt pdu start) pos) : ReaderMeets pdu start pos

/-- From an index the subPDUs lead to one that ends one walk alone, and the other one gets to a
C-RNTI: a message of the CCCH of zeros, or a subPDU that is not known. What is left of the PDU
behind such a subPDU, or behind padding, is counted with 16 bits. -/
inductive PartsFrom (pdu : List UInt8) : ℕ → Prop
  | zero {start pos : ℕ} (hin : start < pdu.length) (hend : subPduEnd pdu start ≤ pdu.length)
      (hzero : AllZero pdu start) (hmeets : LookaheadMeets pdu (subPduEnd pdu start) pos) :
      PartsFrom pdu start
  | unknown {start pos : ℕ} (hin : start < pdu.length) (hlcid : lcidAt pdu start = .other)
      (hshort : pdu.length - start ≤ 65536) (hmeets : LookaheadMeets pdu (start + 1) pos) :
      PartsFrom pdu start
  | padding {start pos : ℕ} (hlcid : lcidAt pdu start = .padding)
      (hlong : 65536 < pdu.length - start)
      (hmeets : ReaderMeets pdu (start + 1 + (pdu.length - start - 1) % 65536) pos) :
      PartsFrom pdu start
  | unknownLong {start pos : ℕ} (hlcid : lcidAt pdu start = .other)
      (hlong : 65536 < pdu.length - start)
      (hdiffer : ¬ (LookaheadMeets pdu (start + 1) pos ↔
        ReaderMeets pdu (start + 1 + (pdu.length - start - 1) % 65536) pos)) :
      PartsFrom pdu start
  | next {start : ℕ} (hin : start < pdu.length) (hend : subPduEnd pdu start ≤ pdu.length)
      (hcrnti : lcidAt pdu start ≠ .cRnti) (hrest : (lcidAt pdu start).takesRest = false)
      (hzero : ¬ AllZero pdu start) (hnext : PartsFrom pdu (subPduEnd pdu start)) :
      PartsFrom pdu start

variable {ctx : UlContext} {pdu : List UInt8} {start pos fuel : ℕ} {st : MacPduState}

/-! ### One step of the walks -/

theorem subPduEnd_of_takesRest (hrest : (lcidAt pdu start).takesRest = true) :
    subPduEnd pdu start = start + 1 := by
  obtain ⟨hsize, hlength, -⟩ := sizes_of_takesRest hrest
  rw [subPduEnd, hsize, hlength]

theorem nextAt_of_takesRest (hrest : (lcidAt pdu start).takesRest = true) :
    nextAt pdu start = start + 1 + (pdu.length - start - 1) % 65536 := by
  obtain ⟨hsize, -, -⟩ := sizes_of_takesRest hrest
  rw [nextAt, advanceAt, if_pos hrest, hsize]

theorem nextAt_of_not_takesRest (hrest : (lcidAt pdu start).takesRest = false) :
    nextAt pdu start = subPduEnd pdu start := by
  rw [nextAt, advanceAt, hrest, subPduEnd]
  rfl

theorem takesRest_iff {lcid : UlSchLcid} : lcid.takesRest = true ↔ lcid = .padding ∨ lcid =
    .other := by
  cases lcid <;> simp [UlSchLcid.takesRest]

/-- Each walk gets ahead, and not beyond the PDU. -/
theorem subPduEnd_gt (pdu : List UInt8) (start : ℕ) : start < subPduEnd pdu start := by
  have hpos := headerSize_pos pdu start
  rw [subPduEnd]
  omega

theorem nextAt_bounds (hend : subPduEnd pdu start ≤ pdu.length) :
    start < nextAt pdu start ∧ nextAt pdu start ≤ pdu.length := by
  have hgt := subPduEnd_gt pdu start
  cases hrest : (lcidAt pdu start).takesRest with
  | false =>
    rw [nextAt_of_not_takesRest hrest]
    exact ⟨hgt, hend⟩
  | true =>
    rw [subPduEnd_of_takesRest hrest] at hend
    rw [nextAt_of_takesRest hrest]
    omega

theorem lookaheadMeets_iff (hin : start < pdu.length) (hend : subPduEnd pdu start ≤ pdu.length)
    (hcrnti : lcidAt pdu start ≠ .cRnti) :
    LookaheadMeets pdu start pos ↔
      lcidAt pdu start ≠ .padding ∧ LookaheadMeets pdu (subPduEnd pdu start) pos := by
  constructor
  · intro h
    cases h with
    | here _ hhere => exact absurd hhere.1 hcrnti
    | next _ _ _ hpadding hnext => exact ⟨hpadding, hnext⟩
  · exact fun h => .next hin hend hcrnti h.1 h.2

theorem readerMeets_iff (hin : start < pdu.length) (hend : subPduEnd pdu start ≤ pdu.length)
    (hcrnti : lcidAt pdu start ≠ .cRnti) :
    ReaderMeets pdu start pos ↔ ¬ AllZero pdu start ∧ ReaderMeets pdu (nextAt pdu start) pos := by
  constructor
  · intro h
    cases h with
    | here _ hhere => exact absurd hhere.1 hcrnti
    | next _ _ _ hzero hnext => exact ⟨hzero, hnext⟩
  · exact fun h => .next hin hend hcrnti h.1 h.2

theorem LookaheadMeets.inside (h : LookaheadMeets pdu start pos) :
    start < pdu.length ∧ subPduEnd pdu start ≤ pdu.length := by
  cases h with
  | here hin hcrnti => exact ⟨hin, hcrnti.2⟩
  | next hin hend _ _ _ => exact ⟨hin, hend⟩

theorem ReaderMeets.inside (h : ReaderMeets pdu start pos) :
    start < pdu.length ∧ subPduEnd pdu start ≤ pdu.length := by
  cases h with
  | here hin hcrnti => exact ⟨hin, hcrnti.2⟩
  | next hin hend _ _ _ => exact ⟨hin, hend⟩

/-- At a C-RNTI both walks are where they want to be. -/
theorem meets_of_crntiAt (hin : start < pdu.length) (hcrnti : CrntiAt pdu start) :
    (LookaheadMeets pdu start pos ↔ pos = start) ∧ (ReaderMeets pdu start pos ↔ pos = start) := by
  constructor
  · constructor
    · intro h
      cases h with
      | here => rfl
      | next _ _ hnot => exact absurd hcrnti.1 hnot
    · rintro rfl
      exact .here hin hcrnti
  · constructor
    · intro h
      cases h with
      | here => rfl
      | next _ _ hnot => exact absurd hcrnti.1 hnot
    · rintro rfl
      exact .here hin hcrnti

theorem not_allZero_of_takesRest (hrest : (lcidAt pdu start).takesRest = true) :
    ¬ AllZero pdu start := by
  intro hzero
  rw [hzero.1] at hrest
  exact Bool.false_ne_true hrest

theorem ne_crnti_of_takesRest (hrest : (lcidAt pdu start).takesRest = true) :
    lcidAt pdu start ≠ .cRnti := by
  intro hlcid
  rw [hlcid] at hrest
  exact Bool.false_ne_true hrest

/-! ### Where the walks part -/

/-- Behind padding that is not too long there is no subPDU. -/
theorem not_readerMeets_of_takesRest (hrest : (lcidAt pdu start).takesRest = true)
    (hin : start < pdu.length) (hshort : pdu.length - start ≤ 65536) :
    ¬ ReaderMeets pdu (nextAt pdu start) pos := by
  intro h
  have hlt := h.inside.1
  rw [nextAt_of_takesRest hrest] at hlt
  omega

/-- Where the walks part, one of them meets a C-RNTI that the other one does not. -/
theorem PartsFrom.exists_differ (h : PartsFrom pdu start) :
    ∃ pos, ¬ (LookaheadMeets pdu start pos ↔ ReaderMeets pdu start pos) := by
  induction h with
  | @zero start pos hin hend hzero hmeets =>
    have hcrnti : lcidAt pdu start ≠ .cRnti := by simp [hzero.1]
    refine ⟨pos, ?_⟩
    rw [lookaheadMeets_iff hin hend hcrnti, readerMeets_iff hin hend hcrnti]
    have hpadding : lcidAt pdu start ≠ .padding := by simp [hzero.1]
    exact fun hiff => (hiff.mp ⟨hpadding, hmeets⟩).1 hzero
  | @unknown start pos hin hlcid hshort hmeets =>
    have hrest := takesRest_iff.mpr (.inr hlcid)
    have hend : subPduEnd pdu start ≤ pdu.length := by
      rw [subPduEnd_of_takesRest hrest]
      exact hin
    have hcrnti := ne_crnti_of_takesRest hrest
    refine ⟨pos, ?_⟩
    rw [lookaheadMeets_iff hin hend hcrnti, readerMeets_iff hin hend hcrnti,
      subPduEnd_of_takesRest hrest]
    have hpadding : lcidAt pdu start ≠ .padding := by simp [hlcid]
    exact fun hiff =>
      not_readerMeets_of_takesRest hrest hin hshort (hiff.mp ⟨hpadding, hmeets⟩).2
  | @padding start pos hlcid hlong hmeets =>
    have hrest := takesRest_iff.mpr (.inl hlcid)
    have hin : start < pdu.length := by omega
    have hend : subPduEnd pdu start ≤ pdu.length := by
      rw [subPduEnd_of_takesRest hrest]
      exact hin
    have hcrnti := ne_crnti_of_takesRest hrest
    refine ⟨pos, ?_⟩
    rw [lookaheadMeets_iff hin hend hcrnti, readerMeets_iff hin hend hcrnti,
      nextAt_of_takesRest hrest]
    exact fun hiff => (hiff.mpr ⟨not_allZero_of_takesRest hrest, hmeets⟩).1 hlcid
  | @unknownLong start pos hlcid hlong hdiffer =>
    have hrest := takesRest_iff.mpr (.inr hlcid)
    have hin : start < pdu.length := by omega
    have hend : subPduEnd pdu start ≤ pdu.length := by
      rw [subPduEnd_of_takesRest hrest]
      exact hin
    have hcrnti := ne_crnti_of_takesRest hrest
    have hpadding : lcidAt pdu start ≠ .padding := by simp [hlcid]
    refine ⟨pos, ?_⟩
    rw [lookaheadMeets_iff hin hend hcrnti, readerMeets_iff hin hend hcrnti,
      nextAt_of_takesRest hrest, subPduEnd_of_takesRest hrest, and_iff_right hpadding,
      and_iff_right (not_allZero_of_takesRest hrest)]
    exact hdiffer
  | @next start hin hend hcrnti hrest hzero _ ih =>
    obtain ⟨pos, hdiffer⟩ := ih
    refine ⟨pos, ?_⟩
    have hpadding : lcidAt pdu start ≠ .padding := by
      intro hlcid
      rw [hlcid] at hrest
      exact Bool.false_ne_true hrest.symm
    rw [lookaheadMeets_iff hin hend hcrnti, readerMeets_iff hin hend hcrnti,
      nextAt_of_not_takesRest hrest, and_iff_right hpadding, and_iff_right hzero]
    exact hdiffer

/-- Walks that do not meet the same C-RNTI part. -/
theorem PartsFrom.of_differ
    (hdiffer : ¬ (LookaheadMeets pdu start pos ↔ ReaderMeets pdu start pos)) :
    PartsFrom pdu start := by
  -- induction on what is left of the PDU
  induction hroom : pdu.length - start using Nat.strongRecOn generalizing start with
  | _ room ih =>
    subst hroom
    by_cases hinside : start < pdu.length ∧ subPduEnd pdu start ≤ pdu.length
    · obtain ⟨hin, hend⟩ := hinside
      by_cases hcrnti : lcidAt pdu start = .cRnti
      · obtain ⟨hlookahead, hreader⟩ := @meets_of_crntiAt pdu start pos hin ⟨hcrnti, hend⟩
        exact absurd (hlookahead.trans hreader.symm) hdiffer
      · rw [lookaheadMeets_iff hin hend hcrnti, readerMeets_iff hin hend hcrnti] at hdiffer
        cases hrest : (lcidAt pdu start).takesRest with
        | false =>
          have hpadding : lcidAt pdu start ≠ .padding := by
            intro hlcid
            rw [hlcid] at hrest
            exact Bool.false_ne_true hrest.symm
          rw [nextAt_of_not_takesRest hrest, and_iff_right hpadding] at hdiffer
          by_cases hzero : AllZero pdu start
          · by_cases hmeets : LookaheadMeets pdu (subPduEnd pdu start) pos
            · exact .zero hin hend hzero hmeets
            · exact absurd ⟨fun h => absurd h hmeets, fun h => absurd hzero h.1⟩ hdiffer
          · rw [and_iff_right hzero] at hdiffer
            have hgt := subPduEnd_gt pdu start
            exact .next hin hend hcrnti hrest hzero (ih _ (by omega) hdiffer rfl)
        | true =>
          rw [and_iff_right (not_allZero_of_takesRest hrest), subPduEnd_of_takesRest hrest]
            at hdiffer
          rcases takesRest_iff.mp hrest with hlcid | hlcid
          · -- only the reader goes on behind padding
            have hmeets : ReaderMeets pdu (nextAt pdu start) pos :=
              Classical.not_not.mp fun h =>
                hdiffer ⟨fun hlook => absurd hlcid hlook.1, fun hread => absurd hread h⟩
            by_cases hlong : 65536 < pdu.length - start
            · rw [nextAt_of_takesRest hrest] at hmeets
              exact .padding hlcid hlong hmeets
            · exact absurd hmeets (not_readerMeets_of_takesRest hrest hin (Nat.not_lt.mp hlong))
          · have hpadding : lcidAt pdu start ≠ .padding := by simp [hlcid]
            rw [and_iff_right hpadding] at hdiffer
            by_cases hlong : 65536 < pdu.length - start
            · rw [nextAt_of_takesRest hrest] at hdiffer
              exact .unknownLong hlcid hlong hdiffer
            · have hnot :=
                @not_readerMeets_of_takesRest pdu start pos hrest hin (Nat.not_lt.mp hlong)
              have hmeets : LookaheadMeets pdu (start + 1) pos :=
                Classical.not_not.mp fun h =>
                  hdiffer ⟨fun hlook => absurd hlook h, fun hread => absurd hread hnot⟩
              exact .unknown hin hlcid (Nat.not_lt.mp hlong) hmeets
    · exact absurd ⟨fun h => absurd h.inside hinside, fun h => absurd h.inside hinside⟩ hdiffer

/-! ### Runs of the search -/

theorem readCrntiCe_eq (hend : start + 2 < pdu.length) :
    readCrntiCe pdu start = .done (some (crntiAt pdu start)) := by
  rw [readCrntiCe, byteAt_of_lt (by omega), byteAt_of_lt hend]
  rfl

theorem CrntiAt.end_eq (hcrnti : CrntiAt pdu start) : subPduEnd pdu start = start + 3 := by
  obtain ⟨hsize, hlength⟩ := sizes_of_fixed hcrnti.1 rfl
  rw [subPduEnd, hsize, hlength]
  rfl

/-- One round of the search, at a subPDU that fits. -/
theorem crntiLookaheadLoop_succ (hend : subPduEnd pdu start ≤ pdu.length) :
    crntiLookaheadLoop pdu (fuel + 1) start (pdu.length - start) =
      if lcidAt pdu start = .cRnti then some (readCrntiCe pdu start)
      else if lcidAt pdu start = .padding then some (.done none)
      else crntiLookaheadLoop pdu fuel (subPduEnd pdu start)
        (pdu.length - subPduEnd pdu start) := by
  have hpos := headerSize_pos pdu start
  have hsum : start + headerSize pdu start + lengthAt pdu start ≤ pdu.length := hend
  have hnext : start + (lengthAt pdu start + headerSize pdu start) = subPduEnd pdu start := by
    rw [subPduEnd]
    omega
  rw [crntiLookaheadLoop, if_neg (by omega), (decodeUlMacSubPduHeader_spec (by omega)).1]
  dsimp only
  rw [if_neg (by omega), hnext, Nat.sub_sub, hnext]
  rfl

/-- The search ends, and finds the C-RNTI that its walk meets. -/
theorem crntiLookaheadLoop_spec (hle : start ≤ pdu.length) (hfuel : pdu.length - start < fuel) :
    ∃ found, crntiLookaheadLoop pdu fuel start (pdu.length - start) = some found ∧
      ∀ ce, found = .done (some ce) ↔ ∃ pos, LookaheadMeets pdu start pos ∧ crntiAt pdu pos =
          ce := by
  induction fuel generalizing start with
  | zero => omega
  | succ fuel ih =>
    by_cases hin : start < pdu.length
    · by_cases hend : subPduEnd pdu start ≤ pdu.length
      · rw [crntiLookaheadLoop_succ hend]
        have hgt := subPduEnd_gt pdu start
        by_cases hcrnti : lcidAt pdu start = .cRnti
        · have hhere : CrntiAt pdu start := ⟨hcrnti, hend⟩
          rw [hhere.end_eq] at hend
          rw [if_pos hcrnti, readCrntiCe_eq hend]
          refine ⟨_, rfl, fun ce => ?_⟩
          simp only [(meets_of_crntiAt hin hhere).1, exists_eq_left, Outcome.done.injEq,
            Option.some.injEq]
        · rw [if_neg hcrnti]
          simp only [lookaheadMeets_iff hin hend hcrnti]
          by_cases hpadding : lcidAt pdu start = .padding
          · rw [if_pos hpadding]
            refine ⟨_, rfl, fun ce => ?_⟩
            simp [hpadding]
          · rw [if_neg hpadding]
            simp only [ne_eq, hpadding, not_false_eq_true, true_and]
            exact ih hend (by omega)
      · -- the subheader, or what it announces, does not fit
        have hnone : ∀ pos, ¬ LookaheadMeets pdu start pos := fun pos h => hend h.inside.2
        have hfound : ∃ found, crntiLookaheadLoop pdu (fuel + 1) start (pdu.length - start) =
            some found ∧ ∀ ce, found ≠ .done (some ce) := by
          rw [crntiLookaheadLoop, if_neg (by omega)]
          by_cases hfits : start + headerSize pdu start ≤ pdu.length
          · rw [(decodeUlMacSubPduHeader_spec hfits).1]
            rw [subPduEnd] at hend
            dsimp only
            rw [if_pos (by omega)]
            exact ⟨_, rfl, by simp⟩
          · rw [(decodeUlMacSubPduHeader_short hin (Nat.not_le.mp hfits)).1]
            exact ⟨_, rfl, by simp⟩
        obtain ⟨found, hrun, hfound⟩ := hfound
        refine ⟨found, hrun, fun ce => ⟨fun h => absurd h (hfound ce), ?_⟩⟩
        rintro ⟨pos, h, -⟩
        exact absurd h (hnone pos)
    · rw [crntiLookaheadLoop, if_pos (by omega)]
      refine ⟨_, rfl, fun ce => ⟨fun h => by simp at h, ?_⟩⟩
      rintro ⟨pos, h, -⟩
      exact absurd h.inside.1 hin

/-! ### Runs of the reader -/

theorem longBsrLoop_cases (payload : ℕ) (flags : List Bool) (m : ℕ) (estimSize : UInt32) :
    (longBsrLoop pdu payload flags m estimSize).outcome = .fault .outOfBounds ∨
      ∃ size, (longBsrLoop pdu payload flags m estimSize).outcome = .done size := by
  induction flags generalizing m estimSize with
  | nil => exact .inr ⟨estimSize, rfl⟩
  | cons flag flags ih =>
    cases flag with
    | false => exact ih m estimSize
    | true =>
      rw [longBsrLoop, Traced.outcome_bind, outcome_readByte]
      rcases byteAt_cases pdu (payload + m) with h | ⟨b, h⟩
      · rw [h]
        exact .inl rfl
      · rw [h]
        exact ih (m + 1) _

/-- A long BSR that is too short is read all the same, if the bytes behind it are in the PDU. -/
theorem estimateUlBufferLongBsr_cases (ce : ℕ) :
    (estimateUlBufferLongBsr pdu ce).outcome = .fault .outOfBounds ∨
      ∃ size, (estimateUlBufferLongBsr pdu ce).outcome = .done size := by
  rw [estimateUlBufferLongBsr, Traced.outcome_bind, outcome_readByte]
  rcases byteAt_cases pdu ce with h | ⟨b, h⟩
  · rw [h]
    exact .inl rfl
  · rw [h, Outcome.done_bind, Traced.outcome_bind]
    rcases @longBsrLoop_cases pdu (ce + 1) (lcgFlags b) 0 0 with h | ⟨size, h⟩
    · rw [h]
      exact .inl rfl
    · rw [h]
      exact .inr ⟨_, rfl⟩

/-- What the reader does behind a subPDU that fits. -/
theorem bodyAt_cases (ctx : UlContext) (st : MacPduState) (hin : start < pdu.length)
    (hend : subPduEnd pdu start ≤ pdu.length) :
    (∃ f, (bodyAt ctx pdu start st).outcome = .fault f) ∨
      (bodyAt ctx pdu start st).outcome = .done .allZero ∧ AllZero pdu start ∨
      ∃ st', (bodyAt ctx pdu start st).outcome = .done (.processed st' (advanceAt pdu start)) ∧
        ¬ AllZero pdu start := by
  by_cases hbsr : BsrTooShort pdu start
  · have hsum : start + headerSize pdu start + lengthAt pdu start ≤ pdu.length := hend
    have hzero : ¬ AllZero pdu start := by
      intro hzero
      rw [BsrTooShort, hzero.1] at hbsr
      exact Bool.false_ne_true hbsr.1
    have hkind : ulSchLcid (pdu.getD start 0 &&& 0x3F) = lcidAt pdu start := rfl
    have hlong := hbsr.1
    rw [bodyAt, processSubPdu, if_neg (by omega), hkind, advanceAt]
    cases hlcid : lcidAt pdu start <;> rw [hlcid] at hlong
    case lTruncatedBsr | lBsr =>
      dsimp only
      rw [Traced.outcome_bind]
      rcases @estimateUlBufferLongBsr_cases pdu (start + headerSize pdu start) with h | ⟨size, h⟩
      · rw [h]
        exact .inl ⟨_, rfl⟩
      · rw [h]
        exact .inr (.inr ⟨_, rfl, hzero⟩)
    all_goals exact absurd hlong Bool.false_ne_true
  · rcases @processSubPdu_spec ctx pdu start st hin hend hbsr with ⟨-, h⟩ | h | ⟨st', h, hzero, -⟩
    · exact .inl ⟨_, h⟩
    · exact .inr (.inl h)
    · exact .inr (.inr ⟨st', h, hzero⟩)

theorem firstCrnti_cons_of_crntiAt {v : SubPdu} {visits : List SubPdu} (hstart : v.start = start)
    (hcrnti : CrntiAt pdu start) : firstCrnti pdu (v :: visits) = some (crntiAt pdu start) := by
  subst hstart
  simp [firstCrnti, hcrnti]

theorem firstCrnti_cons_of_not {v : SubPdu} {visits : List SubPdu} (hstart : v.start = start)
    (hcrnti : ¬ CrntiAt pdu start) : firstCrnti pdu (v :: visits) = firstCrnti pdu visits := by
  subst hstart
  simp [firstCrnti, hcrnti]

/-- The visits are those of the walk, which may be cut short by a fault. -/
structure WalkVisits (pdu : List UInt8) (start : ℕ) (visits : List SubPdu)
    (outcome : Outcome MacPduResult) : Prop where
  meets : ∀ ce, firstCrnti pdu visits = some ce →
    ∃ pos, ReaderMeets pdu start pos ∧ crntiAt pdu pos = ce
  visited : ∀ result pos, outcome = .done result → ReaderMeets pdu start pos →
    firstCrnti pdu visits = some (crntiAt pdu pos)

theorem WalkVisits.last {v : SubPdu} {outcome : Outcome MacPduResult} (hstart : v.start = start)
    (hcrnti : ¬ CrntiAt pdu start)
    (hmeets : (∃ f, outcome = .fault f) ∨ ∀ pos, ¬ ReaderMeets pdu start pos) :
    WalkVisits pdu start [v] outcome := by
  constructor
  · intro ce h
    rw [firstCrnti_cons_of_not hstart hcrnti] at h
    cases h
  · intro result pos hdone h
    rcases hmeets with ⟨f, hf⟩ | hmeets
    · rw [hf] at hdone
      cases hdone
    · exact absurd h (hmeets pos)

/-- A visit of a C-RNTI. -/
theorem WalkVisits.crnti {v : SubPdu} {visits : List SubPdu} {outcome : Outcome MacPduResult}
    (hstart : v.start = start) (hin : start < pdu.length) (hcrnti : CrntiAt pdu start) :
    WalkVisits pdu start (v :: visits) outcome := by
  have hmeets := fun pos => (@meets_of_crntiAt pdu start pos hin hcrnti).2
  constructor
  · intro ce h
    rw [firstCrnti_cons_of_crntiAt hstart hcrnti] at h
    exact ⟨start, (hmeets start).mpr rfl, Option.some.inj h⟩
  · intro result pos _ h
    obtain rfl := (hmeets pos).mp h
    exact firstCrnti_cons_of_crntiAt hstart hcrnti

/-- The reader ends, and visits the C-RNTI that its walk meets. -/
theorem macPduLoop_visits (ctx : UlContext) (st : MacPduState) (hle : start ≤ pdu.length)
    (hfuel : pdu.length - start < fuel) :
    ∃ visits outcome, macPduLoop ctx pdu fuel start (pdu.length - start) st =
      some (visits, outcome) ∧ WalkVisits pdu start visits outcome := by
  induction fuel generalizing start st with
  | zero => omega
  | succ fuel ih =>
    by_cases hin : start < pdu.length
    · by_cases hfits : start + headerSize pdu start ≤ pdu.length
      · rw [macPduLoop_succ hfits]
        by_cases hend : subPduEnd pdu start ≤ pdu.length
        · rcases bodyAt_cases ctx st hin hend with ⟨f, hbody⟩ | ⟨hbody, hzero⟩ | ⟨st', hbody, hzero⟩
          · rw [hbody]
            refine ⟨_, _, rfl, ?_⟩
            by_cases hcrnti : CrntiAt pdu start
            · exact .crnti rfl hin hcrnti
            · exact .last rfl hcrnti (.inl ⟨f, rfl⟩)
          · rw [hbody]
            have hcrnti : lcidAt pdu start ≠ .cRnti := by simp [hzero.1]
            refine ⟨_, _, rfl, .last rfl (fun h => hcrnti h.1) (.inr fun pos h => ?_)⟩
            exact ((readerMeets_iff hin hend hcrnti).mp h).1 hzero
          · -- the walk goes on behind this subPDU
            obtain ⟨hgt, hle'⟩ := nextAt_bounds hend
            obtain ⟨visits, outcome, hrun, hvisits⟩ := ih st' hle' (by omega)
            rw [hbody]
            dsimp only
            rw [← Nat.add_assoc, Nat.sub_sub, ← Nat.add_assoc]
            change ∃ visits outcome, (macPduLoop ctx pdu fuel (nextAt pdu start)
              (pdu.length - nextAt pdu start) st').map _ = _ ∧ _
            rw [hrun]
            refine ⟨_, _, rfl, ?_⟩
            by_cases hcrnti : lcidAt pdu start = .cRnti
            · exact .crnti rfl hin ⟨hcrnti, hend⟩
            · have hnot : ¬ CrntiAt pdu start := fun h => hcrnti h.1
              have hmeets := fun pos => @readerMeets_iff pdu start pos hin hend hcrnti
              constructor
              · intro ce h
                rw [firstCrnti_cons_of_not rfl hnot] at h
                obtain ⟨pos, hpos, hce⟩ := hvisits.meets ce h
                exact ⟨pos, (hmeets pos).mpr ⟨hzero, hpos⟩, hce⟩
              · intro result pos hdone h
                rw [firstCrnti_cons_of_not rfl hnot]
                exact hvisits.visited result pos hdone ((hmeets pos).mp h).2
        · have hbody : (bodyAt ctx pdu start st).outcome = .done .invalid := by
            rw [subPduEnd] at hend
            rw [bodyAt, processSubPdu, if_pos (by omega)]
            rfl
          rw [hbody]
          exact ⟨_, _, rfl, .last rfl (fun h => hend h.2) (.inr fun pos h => hend h.inside.2)⟩
      · rw [macPduLoop, if_neg (by omega)]
        simp only [(decodeUlMacSubPduHeader_short hin (Nat.not_le.mp hfits)).1]
        have hend : ¬ subPduEnd pdu start ≤ pdu.length := fun h =>
          hfits (Nat.le_trans (Nat.le_add_right _ _) h)
        exact ⟨_, _, rfl, .last rfl (fun h => hend h.2) (.inl ⟨_, rfl⟩)⟩
    · rw [macPduLoop, if_pos (by omega)]
      refine ⟨_, _, rfl, ?_, fun _ pos _ h => absurd h.inside.1 hin⟩
      intro ce h
      cases h

/-! ### Agreement -/

/-- A subPDU of a kind that is not known, before a byte that could be the subheader of a C-RNTI. -/
def unknownBeforeCrnti : List UInt8 := [0x21, 0x3A, 0x12, 0x34]

example : (nrProcessMacPdu silentContext unknownBeforeCrnti silentUe 5).map Prod.fst =
    some [⟨0, 1, 3, [0]⟩] := by
  rfl

/-- For every UE the reader and the search end. A C-RNTI that is visited is what is found, if the
walks do not part; and if the reader comes to its end, without an assertion that fails or a read
behind the PDU, then the search finds what is visited exactly when the walks do not part. -/
theorem lcidCrntiLookahead_agrees_iff (ctx : UlContext) (ue : UlUe) (pdu : List UInt8) :
    ∃ visits outcome found, nrProcessMacPdu ctx pdu ue (pdu.length + 1) = some (visits, outcome) ∧
      lcidCrntiLookahead pdu (pdu.length + 1) = some found ∧
      (¬ PartsFrom pdu 0 → ∀ ce, firstCrnti pdu visits = some ce → found = .done (some ce)) ∧
      ∀ result, outcome = .done result → (FindsVisited pdu visits found ↔ ¬ PartsFrom pdu 0) := by
  obtain ⟨found, hsearch, hfound⟩ :=
    @crntiLookaheadLoop_spec pdu 0 (pdu.length + 1) (Nat.zero_le _) (by omega)
  obtain ⟨visits, outcome, hrun, hvisits⟩ := @macPduLoop_visits pdu 0 (pdu.length + 1) ctx
    ⟨ue, [], 0⟩ (Nat.zero_le _) (by omega)
  have hagree : ¬ PartsFrom pdu 0 → ∀ pos, LookaheadMeets pdu 0 pos ↔ ReaderMeets pdu 0 pos :=
    fun hparts pos => Classical.not_not.mp fun hdiffer => hparts (.of_differ hdiffer)
  have hsame : ¬ PartsFrom pdu 0 → ∀ ce, firstCrnti pdu visits = some ce → found =
      .done (some ce) := by
    intro hparts ce hce
    obtain ⟨pos, hpos, hce⟩ := hvisits.meets ce hce
    exact (hfound ce).mpr ⟨pos, (hagree hparts pos).mpr hpos, hce⟩
  by_cases hpos : 0 < pdu.length
  · refine ⟨visits, outcome, found, ?_, hsearch, hsame, ?_⟩
    · rw [nrProcessMacPdu, byteAt_of_lt hpos]
      exact hrun
    · intro result hdone
      constructor
      · intro hfinds hparts
        obtain ⟨pos, hdiffer⟩ := hparts.exists_differ
        apply hdiffer
        constructor
        · intro hlook
          have hce := (hfinds _).mp ((hfound _).mpr ⟨pos, hlook, rfl⟩)
          obtain ⟨pos', hread, hce'⟩ := hvisits.meets _ hce
          obtain rfl : pos' = pos := congrArg CrntiCe.start hce'
          exact hread
        · intro hread
          have hce := (hfinds _).mpr (hvisits.visited result pos hdone hread)
          obtain ⟨pos', hlook, hce'⟩ := (hfound _).mp hce
          obtain rfl : pos' = pos := congrArg CrntiCe.start hce'
          exact hlook
      · intro hparts ce
        constructor
        · intro h
          obtain ⟨pos, hlook, rfl⟩ := (hfound ce).mp h
          exact hvisits.visited result pos hdone ((hagree hparts pos).mp hlook)
        · exact hsame hparts ce
  · -- the first byte of an empty PDU is read, too
    obtain rfl := List.length_eq_zero_iff.mp (Nat.eq_zero_of_not_pos hpos)
    refine ⟨[], .fault .outOfBounds, found, rfl, hsearch, ?_, ?_⟩
    · intro _ ce hce
      cases hce
    · intro result hdone
      cases hdone

/-- The search takes it for a C-RNTI, and the reader never gets there. -/
theorem not_lcidCrntiLookaheadAlwaysAgrees :
    ¬ ∀ ctx ue pdu visits result found,
      nrProcessMacPdu ctx pdu ue (pdu.length + 1) = some (visits, .done result) →
      lcidCrntiLookahead pdu (pdu.length + 1) = some found → FindsVisited pdu visits found := by
  intro hall
  have hfinds := hall silentContext silentUe unknownBeforeCrnti [⟨0, 1, 3, [0]⟩]
    ⟨silentUe, []⟩ (.done (some ⟨1, 0x1234⟩)) rfl rfl
  have hvisited := (hfinds ⟨1, 0x1234⟩).mp rfl
  cases hvisited

end LlmHric.Mac
