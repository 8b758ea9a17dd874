import LlmHric.Mac.ExclusiveAllocation
import LlmHric.Mac.NbRbSearch
import LlmHric.Mac.PassAccounts

/-! The policies search for the number of resource blocks of a new transmission within the free
block on offer, and mark that many in the VRB map. When all policy calls of the slot are over,
`nr_dl_schedule` searches once more for every scheduled candidate, within the size that the policy
committed, and sends what it finds. So the transmission is as large as what was marked only if the
search finds its own result again.

A policy charges the size to its slice behind the `COMMIT_ALLOC` block. The `return` of that block
leaves the pass before the charge. -/

namespace LlmHric.Mac

open Sweep

/-! ### Modulation and coding -/

/-- `Table_51311`: modulation order, and 10240 times the code rate -/
def table51311 : List (ℕ × ℕ) :=
  [(2, 1200), (2, 1570), (2, 1930), (2, 2510), (2, 3080), (2, 3790), (2, 4490), (2, 5260),
    (2, 6020), (2, 6790), (4, 3400), (4, 3780), (4, 4340), (4, 4900), (4, 5530), (4, 6160),
    (4, 6580), (6, 4380), (6, 4660), (6, 5170), (6, 5670), (6, 6160), (6, 6660), (6, 7190),
    (6, 7720), (6, 8220), (6, 8730), (6, 9100), (6, 9480), (2, 0), (4, 0), (6, 0)]

/-- `Table_51312` -/
def table51312 : List (ℕ × ℕ) :=
  [(2, 1200), (2, 1930), (2, 3080), (2, 4490), (2, 6020), (4, 3780), (4, 4340),
    (4, 4900), (4, 5530), (4, 6160), (4, 6580), (6, 4660), (6, 5170), (6, 5670),
    (6, 6160), (6, 6660), (6, 7190), (6, 7720), (6, 8220), (6, 8730), (8, 6825),
    (8, 7110), (8, 7540), (8, 7970), (8, 8410), (8, 8850), (8, 9165), (8, 9480),
    (2, 0), (4, 0), (6, 0), (8, 0)]

/-- `Table_51313` -/
def table51313 : List (ℕ × ℕ) :=
  [(2, 300), (2, 400), (2, 500), (2, 640), (2, 780), (2, 990), (2, 1200), (2, 1570),
    (2, 1930), (2, 2510), (2, 3080), (2, 3790), (2, 4490), (2, 5260), (2, 6020), (4, 3400),
    (4, 3780), (4, 4340), (4, 4900), (4, 5530), (4, 6160), (6, 4380), (6, 4660), (6, 5170),
    (6, 5670), (6, 6160), (6, 6660), (6, 7190), (6, 7720), (2, 0), (4, 0), (6, 0)]

/-- The row of an MCS; an invalid index gives zeros. -/
def mcsRowDl (mcs tableIdx : ℕ) : ℕ × ℕ :=
  match tableIdx with
  | 0 => table51311[mcs]?.getD (0, 0)
  | 1 => table51312[mcs]?.getD (0, 0)
  | 2 => table51313[mcs]?.getD (0, 0)
  | _ => (0, 0)

/-- `nr_get_Qm_dl` -/
def nrGetQmDl (mcs tableIdx : ℕ) : ℕ := (mcsRowDl mcs tableIdx).1

/-- `nr_get_code_rate_dl` -/
def nrGetCodeRateDl (mcs tableIdx : ℕ) : ℕ := (mcsRowDl mcs tableIdx).2

theorem mcsRowDl_le (mcs tableIdx : ℕ) :
    nrGetQmDl mcs tableIdx ≤ 8 ∧ nrGetCodeRateDl mcs tableIdx ≤ 9480 := by
  have hrow : ∀ table : List (ℕ × ℕ), (∀ row ∈ table, row.1 ≤ 8 ∧ row.2 ≤ 9480) →
      (table[mcs]?.getD (0, 0)).1 ≤ 8 ∧ (table[mcs]?.getD (0, 0)).2 ≤ 9480 := by
    intro table htable
    cases hget : table[mcs]? with
    | none => exact ⟨Nat.zero_le _, Nat.zero_le _⟩
    | some row => exact htable row (List.mem_of_getElem? hget)
  unfold nrGetQmDl nrGetCodeRateDl mcsRowDl
  split
  · exact hrow table51311 (by decide)
  · exact hrow table51312 (by decide)
  · exact hrow table51313 (by decide)
  · exact ⟨Nat.zero_le _, Nat.zero_le _⟩

/-- What a UE's transport block size depends on besides MCS and resource blocks. The codebooks are
configured for at most four layers. -/
structure DlLink where
  mcsTableIdx : ℕ
  nrOfLayers : ℕ
  nrOfSymbols : ℕ
  nPrbDmrs : ℕ
  nDmrsSlot : ℕ
  nrOfLayers_le : nrOfLayers ≤ 4

/-- The transport block size in bits. -/
def DlLink.tbsBits (l : DlLink) (mcs nbRb : ℕ) : ℕ :=
  nrComputeTbs (nrGetQmDl mcs l.mcsTableIdx) (nrGetCodeRateDl mcs l.mcsTableIdx) nbRb l.nrOfSymbols
    (l.nPrbDmrs * l.nDmrsSlot) 0 0 l.nrOfLayers

/-- The transport block size in bytes. -/
def DlLink.tbsBytes (l : DlLink) (mcs nbRb : ℕ) : ℕ := l.tbsBits mcs nbRb >>> 3

/-- The slot of a cell whose UEs have these links, by RNTI. -/
def SlotEnv.withLinks (env : SlotEnv) (link : ℕ → DlLink) : SlotEnv :=
  { env with
    nrComputeTbs := fun c nbRb =>
      BitVec.ofNat 32 ((link c.rnti).tbsBits c.schedPdsch.mcs nbRb) }

/-! ### Dispatch -/

/-- The state of a UE that the dispatch reads: the bytes in its buffers, and for a retransmission
what its HARQ process keeps of the first transmission. -/
structure DlUeState where
  numTotalBytes : BitVec 32
  taApply : Bool
  harqQm : ℕ
  harqR : ℕ
  harqTbSize : ℕ

/-- `NR_sched_pdsch_t`, as it is handed to `post_process_dlsch`. -/
structure NrSchedPdsch where
  rbStart : ℕ
  rbSize : ℕ
  mcs : ℕ
  Qm : ℕ
  R : ℕ
  tbSize : ℕ
  deriving DecidableEq

/-- The loop body of step 7 of `nr_dl_schedule`. -/
def dispatch (link : ℕ → DlLink) (ue : ℕ → DlUeState) (c : DlCandidate) : NrSchedPdsch :=
  let u := ue c.rnti
  let l := link c.rnti
  if c.isRetx then
    { rbStart := c.schedPdsch.rbStart, rbSize := c.schedPdsch.rbSize, mcs := c.schedPdsch.mcs
      Qm := u.harqQm, R := u.harqR, tbSize := u.harqTbSize }
  else
    let bytes := (u.numTotalBytes + 3 * 4 + if u.taApply then 2 else 0 : BitVec 32).toNat
    let found := nrFindNbRb (l.tbsBytes c.schedPdsch.mcs) bytes minRbSize c.schedPdsch.rbSize
    { rbStart := c.schedPdsch.rbStart, rbSize := found.2.2, mcs := c.schedPdsch.mcs
      Qm := nrGetQmDl c.schedPdsch.mcs l.mcsTableIdx
      R := nrGetCodeRateDl c.schedPdsch.mcs l.mcsTableIdx
      tbSize := found.2.1 }

/-- The positions of a transmission in the VRB map of the candidate's beam. -/
def NrSchedPdsch.rectangle (pdsch : NrSchedPdsch) (c : DlCandidate) : Set (ℕ × ℕ) :=
  {p | pdsch.rbStart + c.bwpStart ≤ p.1 ∧ p.1 < pdsch.rbStart + c.bwpStart + pdsch.rbSize ∧
    c.allocSlbitmap.getLsbD p.2 = true}

/-- The policy calls of a slot, each with the state and the candidates it starts from. -/
def beamCalls (env : SlotEnv) (params : DlSchedParams) :
    SlotState → List (List DlCandidate) → List (SlotState × List DlCandidate)
  | _, [] => []
  | s, cands :: beams =>
    (s, cands) :: beamCalls env params (nrDlSlicePrbPolicy env params s cands).state beams

/-- The policy calls of `nr_dl_schedule`. -/
def slotCalls (env : SlotEnv) (params : DlSchedParams) (mac : SliceState) (vrbMap : ℕ → VrbMap)
    (cands : List DlCandidate) : List (SlotState × List DlCandidate) :=
  beamCalls env params ⟨mac, vrbMap, 0, 0⟩ (beamGroups (env.beamSort cands))

/-- The validations of a policy call. -/
def callAttempts (env : SlotEnv) (params : DlSchedParams) (s : SlotState)
    (cands : List DlCandidate) : List Attempt :=
  (callRun env params s.mac.entries s.enterCall (buildPfOrder env cands)).state.attempts

def Schedules (visit : PassState → DlCandidate → Visit PassState DlCandidate)
    (v : PassState × DlCandidate) : Prop :=
  v.2.scheduled = false ∧ (visit v.1 v.2).item.scheduled = true

/-- The UEs have in their buffers what the candidates were collected with. -/
def BuffersKept (ue : ℕ → DlUeState) (cands : List DlCandidate) : Prop :=
  ∀ c ∈ cands, c.newData = true →
    (ue c.rnti).numTotalBytes = c.pendingBytes ∧ (ue c.rnti).taApply = c.taApply

section Slot

variable (env : SlotEnv) (link : ℕ → DlLink) (params : DlSchedParams)

/-- Every new transmission of a slot is as large as its committed size, with the transport block of
that size; a policy call adds to the VRB maps the marks of its PDCCHs and the positions of its
transmissions; and the policy pass that schedules a candidate charges the size of its transmission
to the budget and to the statistics of the slice. -/
structure DispatchAgrees (mac : SliceState) (vrbMap : ℕ → VrbMap) (cands : List DlCandidate)
    (ue : ℕ → DlUeState) : Prop where
  size : ∀ c ∈ (nrDlSchedule env params mac vrbMap cands).2, c.scheduled = true →
    c.newData = true → (dispatch link ue c).rbSize = c.schedPdsch.rbSize ∧
      (dispatch link ue c).tbSize =
        nrTbsBytes (dispatch link ue c).Qm (dispatch link ue c).R (link c.rnti).nrOfSymbols
          ((link c.rnti).nPrbDmrs * (link c.rnti).nDmrsSlot) (link c.rnti).nrOfLayers
          c.schedPdsch.rbSize
  marked : ∀ call ∈ slotCalls env params mac vrbMap cands, ∀ b p,
    p ∈ ((nrDlSlicePrbPolicy env params call.1 call.2).state.vrbMap b).taken ↔
      p ∈ (call.1.vrbMap b).taken ∨
      (∃ a ∈ callAttempts env params call.1 call.2, ∃ pdcch, a.outcome = some pdcch ∧
        a.cand.allocBeamIdx = b ∧ p ∈ pdcch.taken) ∨
      ∃ c ∈ (nrDlSlicePrbPolicy env params call.1 call.2).cands, c.scheduled = true ∧
        c.allocBeamIdx = b ∧ p ∈ (dispatch link ue c).rectangle c
  charged : ∀ call ∈ slotCalls env params mac vrbMap cands, ∀ i : Fin maxNumSlices,
    ∀ v ∈ (passOf env params call.1 call.2 i).visits,
      Schedules (passVisit env params call.1 i) v →
        let after := passVisit env params call.1 i v.1 v.2
        after.state.used = v.1.used + (dispatch link ue after.item).rbSize ∧
          after.state.prbUsed i = v.1.prbUsed i + (dispatch link ue after.item).rbSize

/-- No candidate that a policy pass of the slot schedules is the one with which `max_num_ue` is
reached. -/
def NeverFills (mac : SliceState) (vrbMap : ℕ → VrbMap) (cands : List DlCandidate) : Prop :=
  ∀ call ∈ slotCalls env params mac vrbMap cands, ∀ i : Fin maxNumSlices,
    ∀ v ∈ (passOf env params call.1 call.2 i).visits,
      Schedules (passVisit env params call.1 i) v → v.1.slot.nScheduled + 1 < params.maxNumUe

end Slot

/-! ### The search -/

theorem tbsOfInfoIn_wrapping_lt (R nInfo : ℕ) :
    Id.run (tbsOfInfoIn .wrapping R nInfo) < 2 ^ 32 := by
  rw [tbsOfInfoIn]
  split_ifs
  · -- every size of the table fits
    have htable : ∀ size ∈ tbsTableNr, size < 2 ^ 32 := by decide
    change (tbsTableNr.find? _).getD 0 < 2 ^ 32
    cases hfind : tbsTableNr.find? (max 24 (nInfo >>> max 3 (nInfo.log2 - 6) <<<
        max 3 (nInfo.log2 - 6)) ≤ ·) with
    | none => decide
    | some size => exact htable size (List.mem_of_find?_eq_some hfind)
  · exact Word.wrapping_put_lt _
  · dsimp only [Id.run_bind]
    split_ifs
    · exact Word.wrapping_put_lt _
    · exact Word.wrapping_put_lt _

/-- A transport block size is a word. -/
theorem nrComputeTbs_lt (Qm R nbRb nbSymbSch nbDmrsPrb nbRbOh tbScaling Nl : ℕ) :
    nrComputeTbs Qm R nbRb nbSymbSch nbDmrsPrb nbRbOh tbScaling Nl < 2 ^ 32 := by
  rw [nrComputeTbs, nrComputeTbsIn]
  split_ifs
  · decide
  · exact tbsOfInfoIn_wrapping_lt _ _

section Search

variable {tbs : ℕ → ℕ} {bytes lo top : ℕ}

/-- What the search returns, for some size. -/
theorem exists_found_nrFindNbRb (tbs : ℕ → ℕ) (bytes lo top : ℕ) :
    ∃ nbRb, Found false tbs bytes lo top nbRb ∧
      nrFindNbRb tbs bytes lo top = (decide (bytes ≤ tbs nbRb), tbs nbRb, nbRb) := by
  obtain ⟨nbRb, hfound, hrun⟩ := exists_found tbs bytes lo
    (show upperBound false top = some top from rfl) le_rfl (fun h => Bool.noConfusion h)
  refine ⟨nbRb, hfound, ?_⟩
  have hsearch := hrun (top + 1) (Nat.lt_succ_self top)
  rw [nrFindNbRbWithin_eq (Nat.lt_succ_self top)] at hsearch
  exact Option.some.inj hsearch

/-- Within the size that it found, the search finds this size again. -/
theorem nrFindNbRb_idem (hle : lo ≤ top) (hmono : ∀ a b, a ≤ b → b ≤ top → tbs a ≤ tbs b) :
    (nrFindNbRb tbs bytes lo (nrFindNbRb tbs bytes lo top).2.2).2 =
      (tbs (nrFindNbRb tbs bytes lo top).2.2, (nrFindNbRb tbs bytes lo top).2.2) := by
  obtain ⟨nbRb, hfirst, hrun⟩ := exists_found_nrFindNbRb tbs bytes lo top
  rw [hrun]
  dsimp only
  obtain ⟨hlow, hhigh⟩ := hfirst.mem hle
  by_cases hexact : bytes = tbs nbRb
  · -- "whether it exactly fits" is tested before anything smaller
    rw [nrFindNbRb, if_neg (by omega), if_pos hexact]
  obtain ⟨again, hsecond, hrun'⟩ := exists_found_nrFindNbRb tbs bytes lo nbRb
  rw [hrun']
  obtain ⟨hlow', hhigh'⟩ := hsecond.mem hlow
  have hsame : again = nbRb := by
    rcases Nat.lt_or_ge (tbs nbRb) bytes with hshort | hfits
    · exact hsecond.of_lt hshort
    · have hfits' := hsecond.of_le hfits
      by_contra hne
      -- a smaller size that carries the bytes would carry exactly as many
      obtain ⟨-, hboth⟩ := hfirst.eq_of_le hle hmono hlow' (by omega) hfits'
      exact hexact hboth.symm
  rw [hsame]

end Search

section Links

variable (env : SlotEnv) (link : ℕ → DlLink)

theorem tbsBytes_withLinks (c : DlCandidate) :
    (env.withLinks link).tbsBytes c = (link c.rnti).tbsBytes c.schedPdsch.mcs := by
  funext nbRb
  have hlt : (link c.rnti).tbsBits c.schedPdsch.mcs nbRb < 2 ^ 32 := nrComputeTbs_lt _ _ _ _ _ _ _ _
  rw [SlotEnv.tbsBytes, DlLink.tbsBytes, SlotEnv.withLinks, BitVec.toNat_ushiftRight,
    BitVec.toNat_ofNat, Nat.mod_eq_of_lt hlt]

theorem DlLink.tbsBytes_mono (l : DlLink) (mcs : ℕ) {a b : ℕ} (hle : a ≤ b) (hb : b ≤ 275) :
    l.tbsBytes mcs a ≤ l.tbsBytes mcs b := by
  obtain ⟨hQm, hR⟩ := mcsRowDl_le mcs l.mcsTableIdx
  exact nrTbsBytes_mono _ _ hQm (hR.trans (by decide)) l.nrOfLayers_le hb hle

end Links

/-! ### What the policies commit -/

section SizeSettled

variable {env : SlotEnv} {params : DlSchedParams} {link : ℕ → DlLink} {ue : ℕ → DlUeState}

/-- What the dispatch needs of a candidate, whether it is scheduled or not. -/
structure Fed (ue : ℕ → DlUeState) (c : DlCandidate) : Prop where
  bwpSize_le : c.bwpSize ≤ 275
  kept : c.newData = true →
    (ue c.rnti).numTotalBytes = c.pendingBytes ∧ (ue c.rnti).taApply = c.taApply

/-- The size of a scheduled new transmission is one that the search finds in the block on offer, and
without data it is the least one. -/
structure SizeSettled (link : ℕ → DlLink) (ue : ℕ → DlUeState) (c : DlCandidate) : Prop where
  fed : Fed ue c
  found : c.scheduled = true → c.newData = true → ∃ top, minRbSize ≤ top ∧ top ≤ 275 ∧
    c.schedPdsch.rbSize =
      (nrFindNbRb ((link c.rnti).tbsBytes c.schedPdsch.mcs) c.bytesToSend minRbSize top).2.2
  least : c.scheduled = true → c.isRetx = false → c.newData = false →
    c.schedPdsch.rbSize = minRbSize

/-- The search of the dispatch ends at the committed size. -/
theorem SizeSettled.dispatch_eq {c : DlCandidate} (h : SizeSettled link ue c)
    (hsched : c.scheduled = true)
    (hnew : c.newData = true) :
    dispatch link ue c =
      { rbStart := c.schedPdsch.rbStart, rbSize := c.schedPdsch.rbSize, mcs := c.schedPdsch.mcs
        Qm := nrGetQmDl c.schedPdsch.mcs (link c.rnti).mcsTableIdx
        R := nrGetCodeRateDl c.schedPdsch.mcs (link c.rnti).mcsTableIdx
        tbSize := (link c.rnti).tbsBytes c.schedPdsch.mcs c.schedPdsch.rbSize } := by
  obtain ⟨hbytes, hta⟩ := h.fed.kept hnew
  obtain ⟨top, hmin, hmax, hfound⟩ := h.found hsched hnew
  have hretx : ¬ c.isRetx = true := by
    intro hretx
    rw [DlCandidate.newData, hretx] at hnew
    cases hnew
  have hagain := @nrFindNbRb_idem _ c.bytesToSend _ _ hmin fun a b hab hb =>
    (link c.rnti).tbsBytes_mono c.schedPdsch.mcs hab (hb.trans hmax)
  rw [← hfound] at hagain
  simp only [dispatch, if_neg hretx, hbytes, hta]
  change NrSchedPdsch.mk _ (nrFindNbRb _ c.bytesToSend minRbSize _).2.2 _ _ _
    (nrFindNbRb _ c.bytesToSend minRbSize _).2.1 = _
  rw [hagain]

/-- A scheduled new transmission has at least five resource blocks. -/
theorem SizeSettled.minRbSize_le {c : DlCandidate} (h : SizeSettled link ue c)
    (hsched : c.scheduled = true)
    (hnew : c.newData = true) : minRbSize ≤ c.schedPdsch.rbSize := by
  obtain ⟨top, hmin, -, hfound⟩ := h.found hsched hnew
  rw [hfound]
  exact (nrFindNbRb_mem _ _ hmin).1

theorem commitVisit_item (s : PassState) (c : DlCandidate) (rbStart rbSize : ℕ) :
    ∃ b, (commitVisit env params s c rbStart rbSize).item =
      { c.allocate rbStart rbSize c.schedPdsch.mcs with scheduled := b } := by
  cases h : env.nrDlValidateCcePucch s.slot.validations
      (c.allocate rbStart rbSize c.schedPdsch.mcs) with
  | none => exact ⟨c.scheduled, by simp only [commitVisit, commitAllocOrStop_of_none h]; rfl⟩
  | some pdcch => exact ⟨true, by simp only [commitVisit, commitAllocOrStop_of_some h]⟩

theorem exactVisit_settled {wanted : DlCandidate → Bool} {neededRbs : DlCandidate → ℕ}
    (hwanted : ∀ c, wanted c = true →
      c.newData = false ∧ (c.isRetx = false → neededRbs c = minRbSize))
    (s : PassState) (c : DlCandidate) (h : SizeSettled link ue c) :
    SizeSettled link ue (exactVisit env params wanted neededRbs s c).item := by
  unfold exactVisit
  split_ifs with hskip
  · exact h
  · split
    · exact h
    · next block _ =>
      have hvisited : c.scheduled = false ∧ wanted c = true := by simpa using hskip
      obtain ⟨hnew, hneeded⟩ := hwanted c hvisited.2
      obtain ⟨b, hitem⟩ := @commitVisit_item env params s c block.1 (neededRbs c)
      rw [hitem]
      -- what is not passed over has no new data
      exact ⟨⟨h.fed.bwpSize_le, h.fed.kept⟩,
        fun _ hnew' => absurd (hnew.symm.trans hnew') Bool.false_ne_true,
        fun _ hretx _ => hneeded hretx⟩

/-- A candidate of a new-data pass is left alone or gets a size that the search finds. -/
theorem newtxVisit_item (policy : Option ℕ) (rbBudget : ℕ) (s : PassState) (c : DlCandidate) :
    (newtxVisit env params policy rbBudget s c).item = c ∨
      c.newData = true ∧ ∃ rbStart top b, minRbSize ≤ top ∧ top ≤ c.bwpSize ∧
        (newtxVisit env params policy rbBudget s c).item =
          { c.allocate rbStart (newtxRbSize env c top) c.schedPdsch.mcs with scheduled := b } := by
  unfold newtxVisit
  dsimp only
  generalize hremaining : (if rbBudget > 0 then rbBudget - s.used else 0) = remaining
  have hblock : (getLimitedFreeBlock s.slot.vrbMap c remaining).1 ≤ c.bwpSize := by
    have hfits := (fits_getLimitedFreeBlock s.slot.vrbMap c remaining le_rfl).inside
    omega
  split_ifs with hskip hbreak hsmall hstop
  · exact .inl rfl
  · exact .inl rfl
  · exact .inl rfl
  all_goals have hnew := ((newtxServes_iff policy).mp (by simpa using hskip)).2.1
  · obtain ⟨b, hb⟩ := @commitVisit_item env params s c
      (getLimitedFreeBlock s.slot.vrbMap c remaining).2
      (newtxRbSize env c (getLimitedFreeBlock s.slot.vrbMap c remaining).1)
    exact .inr ⟨hnew, _, _, b, Nat.le_of_not_lt hsmall, hblock, hb⟩
  · obtain ⟨b, hb⟩ := @commitVisit_item env params s c
      (getLimitedFreeBlock s.slot.vrbMap c remaining).2
      (newtxRbSize env c (getLimitedFreeBlock s.slot.vrbMap c remaining).1)
    exact .inr ⟨hnew, _, _, b, Nat.le_of_not_lt hsmall, hblock, hb⟩

theorem newtxVisit_settled (policy : Option ℕ) (rbBudget : ℕ) (s : PassState) (c : DlCandidate)
    (h : SizeSettled link ue c) :
    SizeSettled link ue (newtxVisit (env.withLinks link) params policy rbBudget s c).item := by
  rcases @newtxVisit_item (env.withLinks link) params policy rbBudget s c with
    hitem | ⟨hnew, rbStart, top, b, hmin, hmax, hitem⟩
  · rwa [hitem]
  · rw [hitem]
    refine ⟨⟨h.fed.bwpSize_le, h.fed.kept⟩, fun _ _ => ⟨top, hmin, hmax.trans h.fed.bwpSize_le, ?_⟩,
      fun _ _ hnone => absurd (hnone.symm.trans hnew) Bool.false_ne_true⟩
    change newtxRbSize (env.withLinks link) c top = _
    rw [newtxRbSize, tbsBytes_withLinks]
    rfl

variable {order : List DlCandidate} (h : ∀ c ∈ order, SizeSettled link ue c)

include h in
theorem earlyRun_settled (s : PassState) :
    ∀ c ∈ (earlyRun env params s order).items, SizeSettled link ue c := by
  have hretx : ∀ c : DlCandidate, c.isRetx = true →
      c.newData = false ∧ (c.isRetx = false → c.retxRbSize = minRbSize) := by
    intro c hc
    refine ⟨?_, fun hnot => absurd (hnot.symm.trans hc) Bool.false_ne_true⟩
    rw [DlCandidate.newData, hc]
    rfl
  have hempty : ∀ c : DlCandidate, (!c.isRetx && c.pendingBytes == 0) = true →
      c.newData = false ∧ (c.isRetx = false → minRbSize = minRbSize) := by
    intro c hc
    have hzero : c.pendingBytes = 0 := beq_iff_eq.mp (Bool.and_eq_true_iff.mp hc).2
    refine ⟨?_, fun _ => rfl⟩
    rw [DlCandidate.newData, hzero]
    simp
  have hfirst := run_forall_items (s := s)
    (@exactVisit_settled env params link ue _ _ hretx) h
  simp only [earlyRun]
  split_ifs
  · exact hfirst
  · exact run_forall_items (exactVisit_settled hempty) hfirst

include h in
theorem slicesRun_settled (n : ℕ) (s : PassState) :
    ∀ c ∈ (slicesRun (env.withLinks link) params n s order).2, SizeSettled link ue c := by
  induction n with
  | zero => exact h
  | succ n ih =>
    simp only [slicesRun]
    split_ifs
    · exact run_forall_items (newtxVisit_settled _ _) ih
    · exact ih

include h in
theorem callRun_settled (n : ℕ) (s : PassState) :
    ∀ c ∈ (callRun (env.withLinks link) params n s order).items, SizeSettled link ue c :=
  run_forall_items (newtxVisit_settled _ _) (slicesRun_settled (earlyRun_settled h s) n _)

end SizeSettled
/-! ### Marks -/

/-- The VRB maps hold the marks they started with, those of the PDCCHs of the validations made so
far, and the positions of the scheduled candidates. -/
def MarksAre (base : ℕ → VrbMap) (s : PassState) (order : List DlCandidate) : Prop :=
  ∀ b p, p ∈ (s.slot.vrbMap b).taken ↔ p ∈ (base b).taken ∨
    (∃ a ∈ s.attempts, ∃ pdcch, a.outcome = some pdcch ∧ a.cand.allocBeamIdx = b ∧
      p ∈ pdcch.taken) ∨
    ∃ c ∈ order, c.scheduled = true ∧ c.allocBeamIdx = b ∧ p ∈ c.rectangle

section Marks

variable {env : SlotEnv} {params : DlSchedParams}

theorem VrbMap.mem_taken_or {vrbMap pdcch : VrbMap} {p : ℕ × ℕ} :
    p ∈ VrbMap.taken (fun rb => vrbMap rb ||| pdcch rb) ↔ p ∈ vrbMap.taken ∨ p ∈ pdcch.taken := by
  simp only [VrbMap.taken, Set.mem_ofPred_eq, BitVec.getLsbD_or, Bool.or_eq_true]

/-- Only the candidate in the middle is different. -/
theorem exists_mem_middle {pre post : List DlCandidate} {c : DlCandidate} {P : DlCandidate → Prop} :
    (∃ x ∈ pre ++ c :: post, P x) ↔ P c ∨ ∃ x ∈ pre ++ post, P x := by
  constructor
  · intro ⟨x, hx, hP⟩
    rcases List.mem_append.mp hx with hx | hx
    · exact .inr ⟨x, List.mem_append_left _ hx, hP⟩
    · rcases List.mem_cons.mp hx with rfl | hx
      · exact .inl hP
      · exact .inr ⟨x, List.mem_append_right _ hx, hP⟩
  · intro h
    rcases h with hP | ⟨x, hx, hP⟩
    · exact ⟨c, List.mem_append_right _ List.mem_cons_self, hP⟩
    · exact ⟨x, mem_middle_of_mem_append hx, hP⟩

/-- A round adds the marks of its PDCCH and of its candidate. -/
theorem VisitStep.marksAre {base : ℕ → VrbMap} {pre post : List DlCandidate} {s : PassState}
    {c : DlCandidate} {v : Visit PassState DlCandidate} (hstep : VisitStep env params s c v)
    (h : MarksAre base s (pre ++ c :: post)) : MarksAre base v.state (pre ++ v.item :: post) := by
  cases hstep with
  | pass hstate hitem => rwa [hstate, hitem]
  | commit rbStart rbSize hun hfits hitem hattempts hslot =>
    intro b p
    have hvrb : v.state.slot.vrbMap = (commitAllocOrStop env params s.slot c rbStart rbSize
        c.schedPdsch.mcs).state.vrbMap := by rw [hslot]; rfl
    have hcand : v.item = (commitAllocOrStop env params s.slot c rbStart rbSize
        c.schedPdsch.mcs).cand := hitem
    have hlast : v.state.attempts = s.attempts ++ [s.attempt env c rbStart rbSize] := hattempts
    have hbefore := h b p
    rw [exists_mem_middle] at hbefore
    rw [hvrb, hcand, hlast, exists_mem_middle]
    simp only [List.mem_append, List.mem_singleton, or_and_right, exists_or, exists_eq_left] at *
    cases hval : env.nrDlValidateCcePucch s.slot.validations
        (c.allocate rbStart rbSize c.schedPdsch.mcs) with
    | none =>
      -- nothing is marked, and the candidate stays unscheduled
      have hout : (s.attempt env c rbStart rbSize).outcome = none := hval
      rw [commitAllocOrStop_of_none hval, hout]
      dsimp only [DlCandidate.allocate]
      rw [hbefore]
      simp [hun]
    | some pdcch =>
      have hout : (s.attempt env c rbStart rbSize).outcome = some pdcch := hval
      rw [commitAllocOrStop_of_some hval, hout]
      dsimp only
      by_cases hb : b = c.allocBeamIdx
      · subst hb
        rw [Function.update_self, VrbMap.mem_taken_mark, VrbMap.mem_taken_or, hbefore]
        simp only [DlCandidate.allocate, DlCandidate.rectangle, PassState.attempt, hun,
          Set.mem_ofPred_eq, Option.some.injEq, exists_eq_left', true_and, Bool.false_eq_true,
          false_and, false_or]
        simp only [or_assoc, or_comm, or_left_comm]
      · have hb' : ¬ c.allocBeamIdx = b := fun h => hb h.symm
        rw [Function.update_of_ne hb, hbefore]
        simp [DlCandidate.allocate, PassState.attempt, hun, hb']

theorem marksAre_start {order : List DlCandidate} (h : Unscheduled order) (s : SlotState) :
    MarksAre s.vrbMap s.enterCall order := by
  intro b p
  have hnone : ¬ ∃ c ∈ order, c.scheduled = true ∧ c.allocBeamIdx = b ∧ p ∈ c.rectangle := by
    intro ⟨c, hc, hsched, _⟩
    exact Bool.false_ne_true ((h c hc).symm.trans hsched)
  simp [SlotState.enterCall, hnone]

/-- A policy call adds to the VRB maps the marks of its PDCCHs and the positions of the candidates
that it schedules. -/
theorem nrDlSlicePrbPolicy_marks (s : SlotState) {cands : List DlCandidate} (h : Unscheduled cands)
    (b : ℕ) (p : ℕ × ℕ) :
    p ∈ ((nrDlSlicePrbPolicy env params s cands).state.vrbMap b).taken ↔
      p ∈ (s.vrbMap b).taken ∨
      (∃ a ∈ callAttempts env params s cands, ∃ pdcch, a.outcome = some pdcch ∧
        a.cand.allocBeamIdx = b ∧ p ∈ pdcch.taken) ∨
      ∃ c ∈ (nrDlSlicePrbPolicy env params s cands).cands, c.scheduled = true ∧
        c.allocBeamIdx = b ∧ p ∈ c.rectangle := by
  have horder : Unscheduled (buildPfOrder env cands) :=
    fun c hc => h c ((mem_buildPfOrder env).mp hc).1
  have hmarks := @callRun_invariant env params (MarksAre s.vrbMap)
    (fun _ _ _ _ _ hstep hI => hstep.marksAre hI) (fun _ _ hI => hI) s.mac.entries _ _
    (marksAre_start horder s) b p
  rw [(nrDlSlicePrbPolicy_eq_callRun env params s cands).1,
    (nrDlSlicePrbPolicy_eq_callRun env params s cands).2, hmarks]
  -- the candidates that were skipped are not scheduled
  have hskipped : ∀ c ∈ cands.filter fun c => c.skipped, ¬ c.scheduled = true := by
    intro c hc hsched
    exact Bool.false_ne_true ((h c (List.mem_filter.mp hc).1).symm.trans hsched)
  have hcands : (∃ c ∈ (callRun env params s.mac.entries s.enterCall
        (buildPfOrder env cands)).items ++ cands.filter fun c => c.skipped,
        c.scheduled = true ∧ c.allocBeamIdx = b ∧ p ∈ c.rectangle) ↔
      ∃ c ∈ (callRun env params s.mac.entries s.enterCall (buildPfOrder env cands)).items,
        c.scheduled = true ∧ c.allocBeamIdx = b ∧ p ∈ c.rectangle := by
    constructor
    · intro ⟨c, hc, hsched, hrest⟩
      rcases List.mem_append.mp hc with hc | hc
      · exact ⟨c, hc, hsched, hrest⟩
      · exact absurd hsched (hskipped c hc)
    · intro ⟨c, hc, hrest⟩
      exact ⟨c, List.mem_append_left _ hc, hrest⟩
  rw [hcands]
  rfl

end Marks

/-! ### The slot -/

section Slot

variable {env : SlotEnv} {params : DlSchedParams} {link : ℕ → DlLink} {ue : ℕ → DlUeState}
  {mac : SliceState} {vrbMap : ℕ → VrbMap} {cands : List DlCandidate}

/-- The candidates of a slot are those that its policy calls leave. -/
theorem allocBeams_eq (s : SlotState) (beams : List (List DlCandidate)) :
    (allocBeams env params s beams).2 =
      (beamCalls env params s beams).flatMap fun call =>
        (nrDlSlicePrbPolicy env params call.1 call.2).cands := by
  induction beams generalizing s with
  | nil => rfl
  | cons cands beams ih =>
    rw [allocBeams, beamCalls, List.flatMap_cons, ← ih]

theorem mem_beamCalls {s : SlotState} {beams : List (List DlCandidate)}
    {call : SlotState × List DlCandidate} (h : call ∈ beamCalls env params s beams) :
    call.2 ∈ beams := by
  induction beams generalizing s with
  | nil => exact absurd h List.not_mem_nil
  | cons cands beams ih =>
    rw [beamCalls] at h
    rcases List.mem_cons.mp h with rfl | h
    · exact List.mem_cons_self
    · exact List.mem_cons_of_mem cands (ih h)

theorem mem_of_mem_slotCalls {call : SlotState × List DlCandidate}
    (h : call ∈ slotCalls env params mac vrbMap cands) {c : DlCandidate} (hc : c ∈ call.2) :
    c ∈ cands := by
  have hsorted : c ∈ env.beamSort cands := by
    rw [← List.flatten_splitBy (fun c c' : DlCandidate => c.allocBeamIdx == c'.allocBeamIdx)
      (env.beamSort cands)]
    exact List.mem_flatten.mpr ⟨call.2, mem_beamCalls h, hc⟩
  exact (env.beamSort_perm cands).mem_iff.mp hsorted

/-- What is handed to a slot. -/
structure SlotInput (ue : ℕ → DlUeState) (cands : List DlCandidate) : Prop where
  unscheduled : Unscheduled cands
  bwpSize_le : ∀ c ∈ cands, c.bwpSize ≤ 275
  kept : BuffersKept ue cands

variable (h : SlotInput ue cands)

include h

theorem SlotInput.settled {c : DlCandidate} (hc : c ∈ cands) : SizeSettled link ue c where
  fed := ⟨h.bwpSize_le c hc, h.kept c hc⟩
  found hsched := absurd ((h.unscheduled c hc).symm.trans hsched) Bool.false_ne_true
  least hsched := absurd ((h.unscheduled c hc).symm.trans hsched) Bool.false_ne_true

theorem SlotInput.of_call {call : SlotState × List DlCandidate}
    (hcall : call ∈ slotCalls env params mac vrbMap cands) : SlotInput ue call.2 where
  unscheduled c hc := h.unscheduled c (mem_of_mem_slotCalls hcall hc)
  bwpSize_le c hc := h.bwpSize_le c (mem_of_mem_slotCalls hcall hc)
  kept c hc := h.kept c (mem_of_mem_slotCalls hcall hc)

/-- The sizes that a policy call commits are found again. -/
theorem SlotInput.policy_settled (s : SlotState) :
    ∀ c ∈ (nrDlSlicePrbPolicy (env.withLinks link) params s cands).cands,
        SizeSettled link ue c := by
  intro c hc
  rw [(nrDlSlicePrbPolicy_eq_callRun _ params s cands).2] at hc
  rcases List.mem_append.mp hc with hc | hc
  · exact callRun_settled (fun x hx => h.settled ((mem_buildPfOrder _).mp hx).1) _ _ c hc
  · exact h.settled (List.mem_filter.mp hc).1

/-- The sizes of a slot are found again. -/
theorem nrDlSchedule_settled (mac : SliceState) (vrbMap : ℕ → VrbMap) :
    ∀ c ∈ (nrDlSchedule (env.withLinks link) params mac vrbMap cands).2, SizeSettled link ue c := by
  intro c hc
  rw [nrDlSchedule, allocBeams_eq] at hc
  obtain ⟨call, hcall, hc⟩ := List.mem_flatMap.mp hc
  exact (h.of_call hcall).policy_settled call.1 c hc

omit h in
/-- A transmission is at the positions of its candidate. -/
theorem rectangle_dispatch {c : DlCandidate} (hc : SizeSettled link ue c)
    (hsched : c.scheduled = true) :
    (dispatch link ue c).rectangle c = c.rectangle := by
  cases hretx : c.isRetx with
  | true =>
    rw [dispatch, if_pos hretx]
    rfl
  | false =>
    cases hnew : c.newData with
    | true =>
      rw [hc.dispatch_eq hsched hnew]
      rfl
    | false =>
      -- between five and five there is only one size
      have hsize := hc.least hsched hretx hnew
      obtain ⟨hlow, hhigh⟩ := nrFindNbRb_mem ((link c.rnti).tbsBytes c.schedPdsch.mcs)
        ((ue c.rnti).numTotalBytes + 3 * 4 + if (ue c.rnti).taApply then 2 else 0 : BitVec 32).toNat
        hsize.ge
      simp only [dispatch, hretx, Bool.false_eq_true, if_false]
      rw [NrSchedPdsch.rectangle, le_antisymm hhigh (hsize.le.trans hlow)]
      rfl

/-! ### The charges -/

theorem SlotInput.beforePass_settled (s : SlotState) (i : ℕ) :
    ∀ c ∈ (beforePass (env.withLinks link) params s cands i).2, SizeSettled link ue c :=
  slicesRun_settled
    (earlyRun_settled (fun _ hx => h.settled ((mem_buildPfOrder _).mp hx).1) _) i _

/-- The round that schedules a candidate charges its transmission, unless it fills the slot. -/
theorem SlotInput.charged_iff (s : SlotState) (i : Fin maxNumSlices) {v : PassState × DlCandidate}
    (hv : v ∈ (passOf (env.withLinks link) params s cands i).visits)
    (hsched : Schedules (passVisit (env.withLinks link) params s i) v) :
    ((passVisit (env.withLinks link) params s i v.1 v.2).state.used = v.1.used +
        (dispatch link ue (passVisit (env.withLinks link) params s i v.1 v.2).item).rbSize ∧
      (passVisit (env.withLinks link) params s i v.1 v.2).state.prbUsed i = v.1.prbUsed i +
        (dispatch link ue (passVisit (env.withLinks link) params s i v.1 v.2).item).rbSize) ↔
      v.1.slot.nScheduled + 1 < params.maxNumUe := by
  unfold passOf at hv
  dsimp only at hv
  split_ifs at hv with hpass
  · obtain ⟨hun, hitem⟩ := hsched
    have htable := beforePass_sameTable (env.withLinks link) params s cands i
    -- the pass starts from the table of the call, and no round changes it
    obtain ⟨hsame, hmem⟩ := mem_of_mem_visits (I := fun t => SameTable s.mac t.slot.mac)
      (fun t c ht => ht.trans (newtxVisit_round _ params _ _ t c).sameTable) htable hv
    have hentries := hpass.1
    have hcount : i.val < v.1.slot.mac.dlSlicePolicyCount := by
      rw [hsame.count]
      unfold SliceState.entries at hentries
      split_ifs at hentries
      · exact hentries
      · omega
    have hsettled : SizeSettled link ue (passVisit (env.withLinks link) params s i v.1 v.2).item :=
      newtxVisit_settled _ _ _ _ (h.beforePass_settled s i v.2 hmem)
    have hround := newtxVisit_round (env.withLinks link) params (some i.val)
      (totalBudget params (s.mac.dlSlicePolicy.entry i).dedicatedPrbRatio) v.1 v.2
    have hnew : (passVisit (env.withLinks link) params s i v.1 v.2).item.newData = true := by
      rcases @newtxVisit_item (env.withLinks link) params (some i.val)
        (totalBudget params (s.mac.dlSlicePolicy.entry i).dedicatedPrbRatio) v.1 v.2 with
        hsame | ⟨hnew, rbStart, top, b, -, -, heq⟩
      · rw [passVisit, hsame, hun] at hitem
        cases hitem
      · rw [passVisit, heq]
        exact hnew
    have hsize := hsettled.minRbSize_le hitem hnew
    have hpositive : 0 < minRbSize := by decide
    rw [hsettled.dispatch_eq hitem hnew]
    have hload : newlyScheduled v.2 (passVisit (env.withLinks link) params s i v.1 v.2).item =
        (passVisit (env.withLinks link) params s i v.1 v.2).item.schedPdsch.rbSize :=
      if_pos ⟨hun, hitem⟩
    cases hround with
    | idle hstate heq =>
      rw [passVisit, heq, hun] at hitem
      cases hitem
    | failed a rbSize hmin _ _ _ hzero =>
      rw [passVisit] at hload hsize
      omega
    | full a rbSize hmin _ _ hlimit _ _ hused =>
      constructor
      · intro hcharged
        have hgrow := hcharged.1
        rw [passVisit] at hgrow hsize
        dsimp only at hgrow
        omega
      · intro hroom
        omega
    | taken a rbSize _ _ hroom _ hrbSize hused hmac =>
      rw [passVisit] at hload ⊢
      refine ⟨fun _ => hroom, fun _ => ⟨?_, ?_⟩⟩
      · dsimp only
        rw [hused, ← hload, hrbSize]
      · dsimp only
        rw [PassState.prbUsed, hmac, prbUsed_addSlicePolicyPrbStats, if_pos ⟨rfl, hcount⟩, ← hload,
          hrbSize]
        rfl
  · exact absurd hv List.not_mem_nil

/-- Charges that agree with the transmissions are made with room left in the slot. -/
theorem DispatchAgrees.neverFills
    (hagrees : DispatchAgrees (env.withLinks link) link params mac vrbMap cands ue) :
    NeverFills (env.withLinks link) params mac vrbMap cands := by
  intro call hcall i v hv hsched
  exact ((h.of_call hcall).charged_iff call.1 i hv hsched).mp
    (hagrees.charged call hcall i v hv hsched)

theorem NeverFills.dispatchAgrees
    (hnever : NeverFills (env.withLinks link) params mac vrbMap cands) :
    DispatchAgrees (env.withLinks link) link params mac vrbMap cands ue := by
  refine ⟨?_, ?_, ?_⟩
  · intro c hc hsched hnew
    rw [(nrDlSchedule_settled h mac vrbMap c hc).dispatch_eq hsched hnew]
    exact ⟨rfl, rfl⟩
  · intro call hcall b p
    rw [nrDlSlicePrbPolicy_marks call.1 (h.of_call hcall).unscheduled]
    have hrect : ∀ c ∈ (nrDlSlicePrbPolicy (env.withLinks link) params call.1 call.2).cands,
        c.scheduled = true → (dispatch link ue c).rectangle c = c.rectangle :=
      fun c hc => rectangle_dispatch ((h.of_call hcall).policy_settled call.1 c hc)
    refine or_congr_right (or_congr_right (exists_congr fun c => and_congr_right fun hc => ?_))
    exact and_congr_right fun hsched => by rw [hrect c hc hsched]
  · intro call hcall i v hv hsched
    exact ((h.of_call hcall).charged_iff call.1 i hv hsched).mpr (hnever call hcall i v hv hsched)

end Slot

section Schedules

variable {env : SlotEnv} {params : DlSchedParams} {policy : Option ℕ} {rbBudget : ℕ}
  {v : PassState × DlCandidate}

/-- A round with a successful commit schedules its candidate. -/
theorem schedules_of_attempt {a : Attempt}
    (ha : (newtxVisit env params policy rbBudget v.1 v.2).state.attempts = v.1.attempts ++ [a])
    (hok : a.outcome ≠ none) : Schedules (newtxVisit env params policy rbBudget) v := by
  obtain ⟨hserves, -, -, hsched⟩ := newtxVisit_of_attempt ha
  exact ⟨((newtxServes_iff policy).mp hserves).1, (hsched hok).2⟩

theorem Schedules.exists_attempt (h : Schedules (newtxVisit env params policy rbBudget) v) :
    ∃ a, (newtxVisit env params policy rbBudget v.1 v.2).state.attempts = v.1.attempts ++ [a] ∧
      a.outcome ≠ none := by
  obtain ⟨hun, hsched⟩ := h
  rcases newtxVisit_cases env params policy rbBudget v.1 v.2 with
    heq | ⟨-, -, heq⟩ | ⟨-, rbStart, rbSize, -, -, -, heq⟩
  · rw [heq] at hsched
    exact absurd (hun.symm.trans hsched) Bool.false_ne_true
  · rw [heq] at hsched
    exact absurd (hun.symm.trans hsched) Bool.false_ne_true
  · refine ⟨v.1.attempt env v.2 rbStart rbSize, ?_, fun hnone => ?_⟩
    · rw [heq]
      split_ifs
      · rfl
      · rfl
    · -- a failed commit leaves its candidate unscheduled
      have hitem : (commitVisit env params v.1 v.2 rbStart rbSize).item.scheduled = false := by
        simp only [commitVisit, commitAllocOrStop_of_none hnone]
        exact hun
      rw [heq] at hsched
      split_ifs at hsched
      · exact absurd (hitem.symm.trans hsched) Bool.false_ne_true
      · exact absurd (hitem.symm.trans hsched) Bool.false_ne_true

end Schedules

/-! ### Beams without room -/

/-- No resource block is free for the candidate. -/
def DlCandidate.Blocked (vrbMap : ℕ → VrbMap) (c : DlCandidate) : Prop :=
  ∀ rb, (vrbMap c.allocBeamIdx).isFree c.allocSlbitmap rb = false

section Blocked

variable {env : SlotEnv} {params : DlSchedParams}

theorem DlCandidate.Blocked.not_fits {vrbMap : ℕ → VrbMap} {c : DlCandidate}
    (h : c.Blocked vrbMap) {rbStart rbSize : ℕ} (hpos : 0 < rbSize) :
    ¬ c.Fits vrbMap rbStart rbSize := by
  intro hfits
  have hfree := hfits.free rbStart le_rfl (by omega)
  exact Bool.false_ne_true ((h _).symm.trans hfree)

theorem exactVisit_of_blocked {wanted : DlCandidate → Bool} {neededRbs : DlCandidate → ℕ}
    {s : PassState} {c : DlCandidate} (h : c.Blocked s.slot.vrbMap) (hneeded : 0 < neededRbs c) :
    (exactVisit env params wanted neededRbs s c).state = s ∧
      (exactVisit env params wanted neededRbs s c).item = c := by
  unfold exactVisit
  split_ifs
  · exact ⟨rfl, rfl⟩
  · split
    next => exact ⟨rfl, rfl⟩
    next block hblock =>
      obtain ⟨hinside, hfree⟩ := getRbAlloc_free hblock
      exact absurd ⟨hinside, hfree⟩ (h.not_fits hneeded)

theorem newtxVisit_of_blocked {policy : Option ℕ} {rbBudget : ℕ} {s : PassState}
    {c : DlCandidate} (h : c.Blocked s.slot.vrbMap) :
    (newtxVisit env params policy rbBudget s c).state = s ∧
      (newtxVisit env params policy rbBudget s c).item = c := by
  rcases newtxVisit_cases env params policy rbBudget s c with
    heq | ⟨-, -, heq⟩ | ⟨-, rbStart, rbSize, hfits, hmin, -, -⟩
  · rw [heq]
    exact ⟨rfl, rfl⟩
  · rw [heq]
    exact ⟨rfl, rfl⟩
  · unfold minRbSize at hmin
    exact absurd hfits (h.not_fits (by omega))

variable {order : List DlCandidate}

variable (env params) in
theorem newtxRun_of_blocked (policy : Option ℕ) (rbBudget : ℕ) {s : PassState}
    (h : ∀ c ∈ order, c.Blocked s.slot.vrbMap) :
    (run (newtxVisit env params policy rbBudget) s order).state = s ∧
      (run (newtxVisit env params policy rbBudget) s order).items = order :=
  run_eq_self fun c hc => newtxVisit_of_blocked (h c hc)

variable (env params) in
theorem exactRun_of_blocked (wanted : DlCandidate → Bool) {neededRbs : DlCandidate → ℕ}
    {s : PassState} (h : ∀ c ∈ order, c.Blocked s.slot.vrbMap ∧ 0 < neededRbs c) :
    (run (exactVisit env params wanted neededRbs) s order).state = s ∧
      (run (exactVisit env params wanted neededRbs) s order).items = order :=
  run_eq_self fun c hc => exactVisit_of_blocked (h c hc).1 (h c hc).2

variable (env params) in
theorem slicesRun_of_blocked {s : PassState} (h : ∀ c ∈ order, c.Blocked s.slot.vrbMap) (n : ℕ) :
    (slicesRun env params n s order).1.slot = s.slot ∧
      (slicesRun env params n s order).2 = order := by
  induction n with
  | zero => exact ⟨rfl, rfl⟩
  | succ n ih =>
    simp only [slicesRun, policyRun]
    split_ifs
    · obtain ⟨hslot, horder⟩ := ih
      have hblocked : ∀ c ∈ (slicesRun env params n s order).2,
          c.Blocked (slicesRun env params n s order).1.slot.vrbMap := by
        rw [hslot, horder]
        exact h
      obtain ⟨hstate, hitems⟩ := newtxRun_of_blocked env params (some n) (totalBudget params
          ((slicesRun env params n s order).1.slot.mac.dlSlicePolicy.entry n).dedicatedPrbRatio)
        (s := { (slicesRun env params n s order).1 with used := 0 }) hblocked
      rw [hstate, hitems]
      exact ⟨hslot, horder⟩
    · exact ih

/-- A policy call without room leaves the slot as it is. -/
theorem nrDlSlicePrbPolicy_of_blocked {s : SlotState} {cands : List DlCandidate}
    (h : ∀ c ∈ cands, c.Blocked s.vrbMap ∧ 0 < c.retxRbSize) :
    (nrDlSlicePrbPolicy env params s cands).state = s.enterCall.slot := by
  have horder : ∀ c ∈ buildPfOrder env cands, c.Blocked s.vrbMap ∧ 0 < c.retxRbSize :=
    fun c hc => h c ((mem_buildPfOrder env).mp hc).1
  rw [(nrDlSlicePrbPolicy_eq_callRun env params s cands).1]
  generalize buildPfOrder env cands = order at horder
  obtain ⟨hretx, hretx_items⟩ := exactRun_of_blocked env params (fun c => c.isRetx)
    (s := s.enterCall) horder
  obtain ⟨hnoData, hnoData_items⟩ := exactRun_of_blocked env params
    (fun c => !c.isRetx && c.pendingBytes == 0) (s := s.enterCall)
    fun c hc => ⟨(horder c hc).1, (by decide : 0 < minRbSize)⟩
  have hearly : (earlyRun env params s.enterCall order).state = s.enterCall ∧
      (earlyRun env params s.enterCall order).items = order := by
    simp only [earlyRun]
    split_ifs
    · exact ⟨hretx, hretx_items⟩
    · rw [hretx, hretx_items]
      exact ⟨hnoData, hnoData_items⟩
  have hblocked : ∀ c ∈ order, c.Blocked s.enterCall.slot.vrbMap := fun c hc => (horder c hc).1
  obtain ⟨hslot, hitems⟩ := slicesRun_of_blocked env params hblocked s.mac.entries
  have hlast := newtxRun_of_blocked env params none 0
    (s := { (slicesRun env params s.mac.entries s.enterCall order).1 with used := 0 })
    (hslot ▸ hblocked)
  simp only [callRun, lastRun, hearly.1, hearly.2, hitems, hlast.1]
  exact hslot

/-- The first beam with room meets the slot as it was handed in. -/
theorem mem_beamCalls_of_blocked {s : SlotState} (hzero : s.nScheduled = 0)
    {gs gs' : List (List DlCandidate)} {g : List DlCandidate}
    (h : ∀ f ∈ gs, ∀ c ∈ f, c.Blocked s.vrbMap ∧ 0 < c.retxRbSize) :
    (s, g) ∈ beamCalls env params s (gs ++ g :: gs') := by
  induction gs with
  | nil => exact List.mem_cons_self
  | cons f gs ih =>
    have hsame : (nrDlSlicePrbPolicy env params s f).state = s := by
      rw [nrDlSlicePrbPolicy_of_blocked (h f List.mem_cons_self)]
      simp [SlotState.enterCall, ← hzero]
    rw [List.cons_append, beamCalls, hsame]
    exact List.mem_cons_of_mem _ (ih fun f' hf' => h f' (List.mem_cons_of_mem f hf'))

end Blocked

/-! ### The exact condition -/

section Beams

theorem waiting_perm {places places' : List Placement} (h : places.Perm places')
    (q : Placement → Bool) : waiting q places = waiting q places' :=
  h.countP_eq _

theorem reach_perm {params : DlSchedParams} {mac : SliceState} {places places' : List Placement}
    (h : places.Perm places') (p : ℕ) (left : Option Nssai) :
    reach params mac places p left = reach params mac places' p left := by
  simp only [reach, waiting_perm h]

theorem PassServes.perm {params : DlSchedParams} {mac : SliceState}
    {places places' : List Placement} {i : ℕ} (hperm : places.Perm places')
    (h : PassServes params mac places i) : PassServes params mac places' i :=
  ⟨h.entry, h.grants, waiting_perm hperm _ ▸ h.waiting⟩

def onBeam (places : List Placement) (b : ℕ) : List Placement :=
  places.filter fun p => decide (p.allocBeamIdx = b)

/-- The candidates of a policy call are those on one beam. -/
theorem perm_onBeam_of_mem_beamGroups {env : SlotEnv} {cands g : List DlCandidate}
    (hg : g ∈ beamGroups (env.beamSort cands)) {c : DlCandidate} (hc : c ∈ g) :
    (g.map DlCandidate.placement).Perm
      (onBeam (cands.map DlCandidate.placement) c.allocBeamIdx) := by
  have hrun := SortedRuns.filter_eq_of_mem_runs (env.beamSort_pairwise cands) hg hc
  rw [← hrun, onBeam, List.filter_map]
  exact ((env.beamSort_perm cands).filter _).map _

theorem nrDlSlicePrbPolicy_sameTable (env : SlotEnv) (params : DlSchedParams) (s : SlotState)
    (cands : List DlCandidate) :
    SameTable s.mac (nrDlSlicePrbPolicy env params s cands).state.mac := by
  rw [(nrDlSlicePrbPolicy_eq_callRun env params s cands).1]
  have hstart : SameTable s.mac (sliceStart env params s.enterCall (buildPfOrder env cands)
      s.mac.entries).1.slot.mac :=
    sliceStart_sameTable env params s.enterCall (buildPfOrder env cands) s.mac.entries
  exact hstart.trans (newtxRun_sameTable env params none 0
    { (sliceStart env params s.enterCall (buildPfOrder env cands) s.mac.entries).1 with
      used := 0 } _)

theorem sameTable_of_mem_beamCalls {env : SlotEnv} {params : DlSchedParams} {s : SlotState}
    {beams : List (List DlCandidate)} {call : SlotState × List DlCandidate}
    (h : call ∈ beamCalls env params s beams) : SameTable s.mac call.1.mac := by
  induction beams generalizing s with
  | nil => exact absurd h List.not_mem_nil
  | cons cands beams ih =>
    rw [beamCalls] at h
    rcases List.mem_cons.mp h with rfl | h
    · exact .refl _
    · exact (nrDlSlicePrbPolicy_sameTable env params s cands).trans (ih h)

/-- What a pass can serve and reach depends on the table only. -/
theorem SameTable.passServes_iff {params : DlSchedParams} {mac mac' : SliceState}
    (h : SameTable mac mac') (places : List Placement) (i : ℕ) :
    PassServes params mac' places i ↔ PassServes params mac places i := by
  have hentries : mac'.entries = mac.entries := by
    rw [SliceState.entries, SliceState.entries, h.enabled, h.count]
  have hgrants : grantsOf params mac' i = grantsOf params mac i := by
    simp only [grantsOf, SliceState.HasPass, h.policy]
  constructor
  · rintro ⟨hentry, hpos, hwaiting⟩
    exact ⟨hentries ▸ hentry, hgrants ▸ hpos, h.policy ▸ hwaiting⟩
  · rintro ⟨hentry, hpos, hwaiting⟩
    exact ⟨hentries ▸ hentry, hgrants ▸ hpos, h.policy ▸ hwaiting⟩

theorem SameTable.reach_eq {params : DlSchedParams} {mac mac' : SliceState}
    (h : SameTable mac mac') (places : List Placement) (p : ℕ) (left : Option Nssai) :
    reach params mac' places p left = reach params mac places p left := by
  simp only [reach, slicesBefore, grantsBefore, grantsOf, SliceState.HasPass, h.policy]

end Beams

/-- What is sent, marked and charged agrees in every slot with candidates at the placements, for all
VRB maps, validations, buffers and orders the sorts can leave. -/
def AlwaysDispatched (link : ℕ → DlLink) (params : DlSchedParams) (mac : SliceState)
    (places : List Placement) : Prop :=
  ∀ (env : SlotEnv) (vrbMap : ℕ → VrbMap) (cands : List DlCandidate) (ue : ℕ → DlUeState),
    cands.map DlCandidate.placement = places → SlotInput ue cands →
    DispatchAgrees (env.withLinks link) link params mac vrbMap cands ue

def roomOnBeam (b : ℕ) : ℕ → VrbMap := fun b' _ => if b' = b then 0 else 0xffff

/-- The buffers of the UEs of the cell without competition. -/
def oneByte (_ : ℕ) : DlUeState := ⟨1, false, 0, 0, 0⟩

theorem slotInput_aloneUes (places : List Placement) : SlotInput oneByte (aloneUes places) where
  unscheduled := alone_aloneUes.unscheduled
  bwpSize_le c hc := by
    obtain ⟨p, j, rfl⟩ := alone_aloneUes.form c hc
    exact Nat.le_of_ble_eq_true rfl
  kept c hc hnew := by
    obtain ⟨p, j, rfl⟩ := alone_aloneUes.form c hc
    exact ⟨rfl, rfl⟩

theorem OfCell.withLinks_eq {link : ℕ → DlLink} {env : SlotEnv}
    (h : OfCell (fun c nbRb => BitVec.ofNat 32 ((link c.rnti).tbsBits c.schedPdsch.mcs nbRb))
      env) : env.withLinks link = env := by
  obtain ⟨x, fails, rfl⟩ := h
  rfl

/-- When the limit can be reached on a beam up to the end of an entry's pass, some slot has a
transmission that is not charged. -/
theorem exists_not_dispatchAgrees (link : ℕ → DlLink) {params : DlSchedParams} {mac : SliceState}
    {places : List Placement} {b : ℕ} {i : Fin maxNumSlices}
    (hserves : PassServes params mac (onBeam places b) i)
    (hreach : params.maxNumUe ≤ reach params mac (onBeam places b) (i + 1) none) :
    ¬ AlwaysDispatched link params mac places := by
  intro h
  -- the candidates of the beam are one group, whatever validates
  let cell := lateEnv (fun c nbRb => BitVec.ofNat 32
    ((link c.rnti).tbsBits c.schedPdsch.mcs nbRb)) 0 fun _ => false
  have hplaces : (aloneUes places).map DlCandidate.placement = places := map_placement_aloneUes
  obtain ⟨c, hc, rfl⟩ : ∃ c ∈ aloneUes places, c.allocBeamIdx = b := by
    obtain ⟨p, hp, -⟩ := List.countP_pos_iff.mp hserves.waiting
    obtain ⟨hp, hbeam⟩ := List.mem_filter.mp hp
    rw [← hplaces] at hp
    obtain ⟨c, hc, rfl⟩ := List.mem_map.mp hp
    exact ⟨c, hc, of_decide_eq_true hbeam⟩
  obtain ⟨g, hg, hcg⟩ := exists_beamGroup cell hc
  have hperm := perm_onBeam_of_mem_beamGroups hg hcg
  rw [hplaces] at hperm
  have halone : Alone g := by
    refine ⟨fun a ha => alone_aloneUes.form a (mem_beamGroups_beamSort hg ha), ?_⟩
    have hsub : g.Sublist (cell.beamSort (aloneUes places)) := by
      have hflat : (beamGroups (cell.beamSort (aloneUes places))).flatten =
          cell.beamSort (aloneUes places) := List.flatten_splitBy _ _
      rw [← hflat]
      exact List.sublist_flatten_of_mem hg
    refine List.Nodup.sublist (hsub.map _) ?_
    exact ((cell.beamSort_perm _).map _).nodup_iff.mpr alone_aloneUes.nodup
  have hbeam : ∀ a ∈ g, a.allocBeamIdx = c.allocBeamIdx :=
    fun a ha => sameBeam_of_mem_beamGroups hg ha hcg
  let s : SlotState := ⟨mac, roomOnBeam c.allocBeamIdx, 0, 0⟩
  have hclear : ∀ a ∈ g, a.Clear s.vrbMap := by
    intro a ha rb _
    simp [s, roomOnBeam, hbeam a ha, VrbMap.isFree]
  obtain ⟨env, hcell, hok, hgrow, hfull⟩ := exists_filledPass
    (fun c nbRb => BitVec.ofNat 32 ((link c.rnti).tbsBits c.schedPdsch.mcs nbRb)) halone
    (s := s) hclear (hserves.perm hperm.symm) (by rw [reach_perm hperm]; exact hreach)
  have hagrees := h env s.vrbMap (aloneUes places) oneByte hplaces (slotInput_aloneUes places)
  have hnever := hagrees.neverFills (slotInput_aloneUes places)
  rw [hcell.withLinks_eq] at hnever
  have hcall : (s, g) ∈ slotCalls env params mac s.vrbMap (aloneUes places) := by
    have hsort : env.beamSort (aloneUes places) = cell.beamSort (aloneUes places) := by
      obtain ⟨x, fails, rfl⟩ := hcell
      rfl
    obtain ⟨gs, gs', hgroups⟩ := List.append_of_mem hg
    have hapart := beamGroups_pairwise (cell.beamSort_pairwise (aloneUes places))
    rw [hgroups, List.pairwise_append] at hapart
    unfold slotCalls
    rw [hsort, hgroups]
    refine mem_beamCalls_of_blocked rfl fun f hf a ha => ⟨fun rb => ?_, ?_⟩
    · have hother : a.allocBeamIdx ≠ c.allocBeamIdx :=
        hapart.2.2 f hf g List.mem_cons_self a ha c hcg
      obtain ⟨p, j, rfl⟩ := alone_aloneUes.form a (mem_beamGroups_beamSort
        (hgroups ▸ List.mem_append_left _ hf) ha)
      have hfull : s.vrbMap (Placement.alone j p).allocBeamIdx rb = 0xffff := if_neg hother
      have hmask : ((0xffff : BitVec 16) &&& 0x3ffc == 0) = false := by decide
      rw [VrbMap.isFree, hfull]
      exact hmask
    · obtain ⟨p, j, rfl⟩ := alone_aloneUes.form a (mem_beamGroups_beamSort
        (hgroups ▸ List.mem_append_left _ hf) ha)
      exact Nat.lt_of_sub_eq_succ rfl
  rcases passOf_nScheduled_of_room hserves.entry (hasPass_of_grantsOf_pos hserves.grants)
    fun v hv a ha hok => hnever _ hcall i v hv (schedules_of_attempt ha hok) with hsame | hbelow
  · exact hgrow.ne' hsame
  · exact hbelow.not_ge hfull

/-- **Dispatch of a slot.** With the buffers as they were collected, every new transmission has the
committed size and its transport block, the VRB maps have the marks of the transmissions, and the
slices are charged for them, in every slot, exactly when on no beam the limit can be reached up to
the end of a pass that serves. -/
theorem dispatchAgrees_iff (link : ℕ → DlLink) (params : DlSchedParams) (mac : SliceState)
    (places : List Placement) :
    AlwaysDispatched link params mac places ↔
      ∀ b, ∀ i : Fin maxNumSlices, PassServes params mac (onBeam places b) i →
        reach params mac (onBeam places b) (i + 1) none < params.maxNumUe := by
  constructor
  · exact fun h b i hserves => Nat.lt_of_not_le fun hreach =>
      exists_not_dispatchAgrees link hserves hreach h
  · rintro h env vrbMap cands ue rfl hinput
    refine NeverFills.dispatchAgrees hinput fun call hcall i v hv hsched => ?_
    have htable := sameTable_of_mem_beamCalls hcall
    obtain ⟨a, ha, hok⟩ := hsched.exists_attempt
    obtain ⟨hserves, -, hreach⟩ :=
      le_reach_of_attempt (hinput.of_call hcall).unscheduled hv ha
    -- the call has a candidate, and so a beam
    obtain ⟨c, hc⟩ : ∃ c, c ∈ call.2 := by
      obtain ⟨p, hp, -⟩ := List.countP_pos_iff.mp hserves.waiting
      obtain ⟨c, hc, -⟩ := List.mem_map.mp hp
      exact ⟨c, hc⟩
    have hperm := perm_onBeam_of_mem_beamGroups (mem_beamCalls hcall) hc
    have hroom := h c.allocBeamIdx i
      (((htable.passServes_iff _ i).mp hserves).perm hperm)
    exact (hreach hok).trans_lt (by rwa [htable.reach_eq, reach_perm hperm])

/-- A link with one layer in 13 symbols, one of them with DMRS. -/
def plainLink (_ : ℕ) : DlLink where
  mcsTableIdx := 0
  nrOfLayers := 1
  nrOfSymbols := 13
  nPrbDmrs := 12
  nDmrsSlot := 1
  nrOfLayers_le := Nat.one_le_ofNat

/-- The buffer of the UE of the 40 % slice. -/
def loadedBuffer (_ : ℕ) : DlUeState := ⟨10000, false, 0, 0, 0⟩

theorem slotInput_loadedUe : SlotInput loadedBuffer [loadedUe 1 0] where
  unscheduled := by simp [Unscheduled, loadedUe]
  bwpSize_le := by simp [loadedUe]
  kept := by simp [BuffersKept, loadedUe, loadedBuffer]

theorem slotCalls_loadedUe (params : DlSchedParams) :
    slotCalls ((crowdedEnv flatTbs ⟨1, 1⟩).withLinks plainLink) params SliceState.oneSlice
      (fun _ _ => 0) [loadedUe 1 0] =
      [(⟨SliceState.oneSlice, fun _ _ => 0, 0, 0⟩, [loadedUe 1 0])] := rfl

/-- With room for one UE, the 20 resource blocks that are sent are not charged. -/
theorem not_dispatchAgrees_roomForOne :
    ¬ DispatchAgrees ((crowdedEnv flatTbs ⟨1, 1⟩).withLinks plainLink) plainLink twoBeams
      SliceState.oneSlice (fun _ _ => 0) [loadedUe 1 0] loadedBuffer := by
  intro hagrees
  have hnever := hagrees.neverFills slotInput_loadedUe
  have hfills : (passOf ((crowdedEnv flatTbs ⟨1, 1⟩).withLinks plainLink) twoBeams
      ⟨SliceState.oneSlice, fun _ _ => 0, 0, 0⟩ [loadedUe 1 0] 0).visits.any (fun v =>
        !v.2.scheduled && (passVisit ((crowdedEnv flatTbs ⟨1, 1⟩).withLinks plainLink) twoBeams
          ⟨SliceState.oneSlice, fun _ _ => 0, 0, 0⟩ 0 v.1 v.2).item.scheduled) = true := by
    decide +kernel
  obtain ⟨v, hv, hsched⟩ := List.any_eq_true.mp hfills
  rw [Bool.and_eq_true, Bool.not_eq_true'] at hsched
  have hcall : (⟨SliceState.oneSlice, fun _ _ => 0, 0, 0⟩, [loadedUe 1 0]) ∈
      slotCalls ((crowdedEnv flatTbs ⟨1, 1⟩).withLinks plainLink) twoBeams SliceState.oneSlice
        (fun _ _ => 0) [loadedUe 1 0] := by
    rw [slotCalls_loadedUe]
    exact List.mem_cons_self
  have hzero : 0 < maxNumSlices := by decide
  have hroom : v.1.slot.nScheduled + 1 < 1 := hnever _ hcall ⟨0, hzero⟩ v hv hsched
  omega

end LlmHric.Mac
