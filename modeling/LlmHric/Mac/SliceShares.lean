import LlmHric.Mac.ExclusiveAllocation

/-! A policy call hands out resource blocks of one beam, so a slice gets there no more than its
budget and no more than the beam has. As every call has the budget of the whole slot, the slice
stays within its cap exactly when what it can get on its beams adds up to no more. -/

namespace LlmHric.Mac

open Sweep

/-- The candidates that take part have their bandwidth parts within the resource blocks of their
beam, and have a symbol in common: `nr_dl_tda_select_default` picks one time-domain allocation for
the slot. -/
structure InCarrier (nRbAvail : ℕ → ℕ) (cands : List DlCandidate) : Prop where
  bwp : ∀ c ∈ cands, c.skipped = false → c.bwpStart + c.bwpSize ≤ nRbAvail c.allocBeamIdx
  symbol : ∃ sym, ∀ c ∈ cands, c.skipped = false → c.allocSlbitmap.getLsbD sym = true

/-- The resource blocks below `N` that are free in a symbol. -/
def VrbMap.freeRbs (vrbMap : VrbMap) (sym N : ℕ) : Finset ℕ :=
  (Finset.range N).filter fun rb => (vrbMap rb).getLsbD sym = false

theorem VrbMap.mem_freeRbs {vrbMap : VrbMap} {sym N rb : ℕ} :
    rb ∈ vrbMap.freeRbs sym N ↔ rb < N ∧ (rb, sym) ∉ vrbMap.taken := by
  simp [VrbMap.freeRbs, VrbMap.taken]

/-- Taking free resource blocks leaves that many fewer. -/
theorem VrbMap.card_freeRbs_add_le {vrbMap vrbMap' : VrbMap} {sym N first size : ℕ}
    (hmono : vrbMap.taken ⊆ vrbMap'.taken) (hinside : first + size ≤ N)
    (hfree : ∀ rb, first ≤ rb → rb < first + size → (rb, sym) ∉ vrbMap.taken)
    (htaken : ∀ rb, first ≤ rb → rb < first + size → (rb, sym) ∈ vrbMap'.taken) :
    (vrbMap'.freeRbs sym N).card + size ≤ (vrbMap.freeRbs sym N).card := by
  have hblock : (Finset.Ico first (first + size)).card = size := by simp
  have hdisjoint : Disjoint (vrbMap'.freeRbs sym N) (Finset.Ico first (first + size)) := by
    refine Finset.disjoint_left.mpr fun rb hrb hin => ?_
    obtain ⟨hfirst, hlast⟩ := Finset.mem_Ico.mp hin
    exact (mem_freeRbs.mp hrb).2 (htaken rb hfirst hlast)
  have hsub : vrbMap'.freeRbs sym N ∪ Finset.Ico first (first + size) ⊆
      vrbMap.freeRbs sym N := by
    intro rb hrb
    rcases Finset.mem_union.mp hrb with hrb | hrb
    · obtain ⟨hlt, hnot⟩ := mem_freeRbs.mp hrb
      exact mem_freeRbs.mpr ⟨hlt, fun h => hnot (hmono h)⟩
    · obtain ⟨hfirst, hlast⟩ := Finset.mem_Ico.mp hrb
      exact mem_freeRbs.mpr ⟨by omega, hfree rb hfirst hlast⟩
  have hcard := Finset.card_le_card hsub
  rwa [Finset.card_union_of_disjoint hdisjoint, hblock] at hcard

/-! ### What a policy call gives to a slice -/

section Call

variable {env : SlotEnv} {params : DlSchedParams} {n : Nssai}

/-- The candidate is on the beam, has its bandwidth part below `N`, and the symbol. -/
structure OnBeam (b N sym : ℕ) (c : DlCandidate) : Prop where
  beam : c.allocBeamIdx = b
  bwp : c.bwpStart + c.bwpSize ≤ N
  symbol : c.allocSlbitmap.getLsbD sym = true

theorem OnBeam.congr {b N sym : ℕ} {c c' : DlCandidate} (hid : c'.identity = c.identity)
    (h : OnBeam b N sym c) : OnBeam b N sym c' := by
  have hsame : OnBeam b N sym c.identity := ⟨h.beam, h.bwp, h.symbol⟩
  rw [← hid] at hsame
  exact ⟨hsame.beam, hsame.bwp, hsame.symbol⟩

/-- The load of the slice and the free resource blocks are together no more than the beam has. -/
structure Within (n : Nssai) (b N sym : ℕ) (s : PassState) (order : List DlCandidate) : Prop where
  cands : ∀ c ∈ order, OnBeam b N sym c
  load : sliceLoad n order + ((s.slot.vrbMap b).freeRbs sym N).card ≤ N

/-- A round takes from the free resource blocks what it adds to the load. -/
theorem VisitStep.within {b N sym : ℕ} {pre post : List DlCandidate} {s : PassState}
    {c : DlCandidate} {v : Visit PassState DlCandidate} (hstep : VisitStep env params s c v)
    (h : Within n b N sym s (pre ++ c :: post)) :
    Within n b N sym v.state (pre ++ v.item :: post) := by
  have hid := hstep.identity_eq
  have hc : OnBeam b N sym c := h.cands c (by simp)
  refine ⟨fun a ha => ?_, ?_⟩
  · rcases List.mem_append.mp ha with ha | ha
    · exact h.cands a (List.mem_append_left _ ha)
    · rcases List.mem_cons.mp ha with rfl | ha
      · exact hc.congr hid
      · exact h.cands a (by simp [ha])
  have hload := h.load
  simp only [sliceLoad_append, sliceLoad_cons] at hload ⊢
  cases hstep with
  | pass hstate hitem => rwa [hstate, hitem]
  | commit rbStart rbSize hun hfits hitem _ hslot =>
    have hvrb : v.state.slot.vrbMap = (commitAllocOrStop env params s.slot c rbStart rbSize
        c.schedPdsch.mcs).state.vrbMap := by rw [hslot]; rfl
    have hcand : v.item = (commitAllocOrStop env params s.slot c rbStart rbSize
        c.schedPdsch.mcs).cand := hitem
    have hmono : (s.slot.vrbMap b).taken ⊆ (v.state.slot.vrbMap b).taken := by
      rw [hvrb]
      exact taken_subset_commit b
    rw [sliceShare_of_unscheduled hun] at hload
    cases hsched : v.item.scheduled with
    | false =>
      -- nothing is added, and no resource block becomes free
      have hcard : ((v.state.slot.vrbMap b).freeRbs sym N).card ≤
          ((s.slot.vrbMap b).freeRbs sym N).card := by
        refine Finset.card_le_card fun rb hrb => ?_
        obtain ⟨hlt, hnot⟩ := VrbMap.mem_freeRbs.mp hrb
        exact VrbMap.mem_freeRbs.mpr ⟨hlt, fun hin => hnot (hmono hin)⟩
      rw [sliceShare_of_unscheduled hsched]
      omega
    | true =>
      have hshare : sliceShare n v.item ≤ rbSize := by
        rw [hcand]
        exact sliceShare_commit_le env params n s.slot hun rbStart rbSize c.schedPdsch.mcs
      have hinside := hfits.inside
      have hbwp := hc.bwp
      have htaken := (commit_scheduled_imp hun (hcand ▸ hsched)).2
      have hfree := (hfits.rectangle_allocate c.schedPdsch.mcs).2
      rw [← hvrb, hc.beam] at htaken
      rw [hc.beam] at hfree
      have hrect : ∀ rb, rbStart + c.bwpStart ≤ rb → rb < rbStart + c.bwpStart + rbSize →
          (rb, sym) ∈ (c.allocate rbStart rbSize c.schedPdsch.mcs).rectangle :=
        fun rb hfirst hlast => ⟨hfirst, hlast, hc.symbol⟩
      have hcard := VrbMap.card_freeRbs_add_le (N := N) hmono
        (by omega : rbStart + c.bwpStart + rbSize ≤ N) (fun rb hfirst hlast =>
          Set.disjoint_left.mp hfree (hrect rb hfirst hlast))
        fun rb hfirst hlast => htaken (hrect rb hfirst hlast)
      omega

/-- A scheduled candidate with new data has at least the smallest allocation. -/
def SizedNewData (c : DlCandidate) : Prop :=
  c.scheduled = true → c.newData = true → minRbSize ≤ c.schedPdsch.rbSize

variable (env params) in
theorem exactVisit_sized {wanted : DlCandidate → Bool} (neededRbs : DlCandidate → ℕ)
    (hwanted : ∀ c, wanted c = true → c.newData = false) (s : PassState) (c : DlCandidate)
    (h : SizedNewData c) : SizedNewData (exactVisit env params wanted neededRbs s c).item := by
  by_cases hc : wanted c = true
  · intro _ hnew
    have hid := (exactVisit_step env params wanted neededRbs s c).identity_eq
    have hsame : (exactVisit env params wanted neededRbs s c).item.identity.newData =
        c.identity.newData := by rw [hid]
    exact absurd ((hwanted c hc).symm.trans (hsame.symm.trans hnew)) Bool.false_ne_true
  · have hpass : exactVisit env params wanted neededRbs s c = .pass s c := by
      simp [exactVisit, hc]
    rw [hpass]
    exact h

theorem newtxVisit_sized (policy : Option ℕ) (rbBudget : ℕ) (s : PassState) (c : DlCandidate)
    (h : SizedNewData c) : SizedNewData (newtxVisit env params policy rbBudget s c).item := by
  rcases newtxVisit_cases env params policy rbBudget s c with
    heq | ⟨-, -, heq⟩ | ⟨-, rbStart, rbSize, -, hmin, -, heq⟩
  · rwa [heq]
  · rwa [heq]
  · have hitem : (newtxVisit env params policy rbBudget s c).item =
        (commitVisit env params s c rbStart rbSize).item := by
      rw [heq]
      split_ifs
      · rfl
      · rfl
    have hsize : (commitVisit env params s c rbStart rbSize).item.schedPdsch.rbSize = rbSize := by
      cases hval : env.nrDlValidateCcePucch s.slot.validations
          (c.allocate rbStart rbSize c.schedPdsch.mcs) with
      | none =>
        simp only [commitVisit, commitAllocOrStop_of_none hval]
        rfl
      | some pdcch =>
        simp only [commitVisit, commitAllocOrStop_of_some hval]
        rfl
    intro _ _
    rwa [hitem, hsize]

variable (env params) in
theorem callRun_sized {order : List DlCandidate} (h : ∀ c ∈ order, SizedNewData c) (m : ℕ)
    (s : PassState) : ∀ c ∈ (callRun env params m s order).items, SizedNewData c := by
  have hfirst := run_forall_items (s := s)
    (exactVisit_sized env params (fun c => c.retxRbSize) fun _ => newData_of_isRetx) h
  have hearly : ∀ c ∈ (earlyRun env params s order).items, SizedNewData c := by
    simp only [earlyRun]
    split_ifs
    · exact hfirst
    · exact run_forall_items (exactVisit_sized env params _ fun _ => newData_of_noData) hfirst
  have hslices : ∀ c ∈ (slicesRun env params m (earlyRun env params s order).state
      (earlyRun env params s order).items).2, SizedNewData c := by
    induction m with
    | zero => exact hearly
    | succ m ih =>
      simp only [slicesRun]
      split_ifs
      · exact run_forall_items (newtxVisit_sized _ _) ih
      · exact ih
  exact run_forall_items (newtxVisit_sized _ _) hslices

/-- What a slice can get on a beam: no more than its cap and the resource blocks of the beam, and
nothing below the smallest allocation. -/
def beamShare (nRbAvail : ℕ → ℕ) (cap b : ℕ) : ℕ := grantable (min (nRbAvail b) cap)

variable {mac : SliceState} {i : ℕ} {s : SlotState} {cands : List DlCandidate}

/-- A load is nothing, or at least the smallest allocation. -/
theorem sliceLoad_eq_zero_or_le (h : ∀ c ∈ cands, SizedNewData c) :
    sliceLoad n cands = 0 ∨ minRbSize ≤ sliceLoad n cands := by
  by_cases hall : ∀ c ∈ cands, sliceShare n c = 0
  · exact .inl (sliceLoad_eq_zero hall)
  · push Not at hall
    obtain ⟨c, hc, hshare⟩ := hall
    have hslice : c.scheduled = true ∧ c.OfSlice n := by
      by_contra hnot
      exact hshare (if_neg hnot)
    have hle : sliceShare n c ≤ sliceLoad n cands :=
      List.single_le_sum (fun _ _ => Nat.zero_le _) _ (List.mem_map_of_mem hc)
    rw [sliceShare, if_pos hslice] at hle
    exact .inr ((h c hc hslice.1 hslice.2.1).trans hle)

theorem nrDlSlicePrbPolicy_load_le_beamShare (h : Enforces mac i s) (hfresh : Fresh cands)
    {b : ℕ} (hcarrier : InCarrier params.nRbAvail cands) (hbeam : ∀ c ∈ cands, c.allocBeamIdx = b) :
    sliceLoad (mac.dlSlicePolicy.entry i).nssai (nrDlSlicePrbPolicy env params s cands).cands ≤
      beamShare params.nRbAvail (sliceCap params (mac.dlSlicePolicy.entry i).dedicatedPrbRatio)
        b := by
  obtain ⟨sym, hsym⟩ := hcarrier.symbol
  have hcap := (nrDlSlicePrbPolicy_load_le env params h hfresh).trans (grantable_le _)
  have horder : sliceLoad (mac.dlSlicePolicy.entry i).nssai
      (nrDlSlicePrbPolicy env params s cands).cands =
        sliceLoad (mac.dlSlicePolicy.entry i).nssai
          (callRun env params s.mac.entries s.enterCall (buildPfOrder env cands)).items := by
    rw [(nrDlSlicePrbPolicy_eq_callRun env params s cands).2, sliceLoad_append,
      hfresh.skipped.load_eq_zero, Nat.add_zero]
  have hstart : Within (mac.dlSlicePolicy.entry i).nssai b (params.nRbAvail b) sym s.enterCall
      (buildPfOrder env cands) := by
    refine ⟨fun c hc => ?_, ?_⟩
    · obtain ⟨hmem, hskip⟩ := (mem_buildPfOrder env).mp hc
      exact ⟨hbeam c hmem, hbeam c hmem ▸ hcarrier.bwp c hmem hskip, hsym c hmem hskip⟩
    · rw [(hfresh.buildPfOrder env).load_eq_zero, Nat.zero_add]
      exact (Finset.card_filter_le _ _).trans_eq (Finset.card_range _)
  have hwithin : Within (mac.dlSlicePolicy.entry i).nssai b (params.nRbAvail b) sym
      (callRun env params s.mac.entries s.enterCall (buildPfOrder env cands)).state
      (callRun env params s.mac.entries s.enterCall (buildPfOrder env cands)).items :=
    callRun_invariant (fun _ _ _ _ _ hstep => hstep.within) (fun _ _ h => ⟨h.cands, h.load⟩)
      s.mac.entries hstart
  have hunsized : ∀ c ∈ buildPfOrder env cands, SizedNewData c := fun c hc hsched hnew =>
    absurd ((hfresh.buildPfOrder env c hc hnew).symm.trans hsched) Bool.false_ne_true
  have hsized := callRun_sized env params hunsized s.mac.entries s.enterCall
  have hload := hwithin.load
  rw [horder] at hcap ⊢
  unfold beamShare grantable
  split_ifs with hsmall
  · rcases sliceLoad_eq_zero_or_le (n := (mac.dlSlicePolicy.entry i).nssai) hsized with hzero | hle
    · exact hzero.le
    · omega
  · omega

end Call

/-! ### The slot -/

/-- The beams on which a slice has candidates with new data that take part. -/
def sliceBeams (n : Nssai) (places : List Placement) : Finset ℕ :=
  ((places.filter fun p => decide ((p.newData = true ∧ p.nssai = n) ∧ p.skipped = false)).map
    Placement.allocBeamIdx).toFinset

section Slot

variable {nrComputeTbs : DlCandidate → ℕ → BitVec 32} {env : SlotEnv} {params : DlSchedParams}
  {mac : SliceState} {i : ℕ} {n : Nssai}

theorem mem_sliceBeams {cands : List DlCandidate} {b : ℕ} :
    b ∈ sliceBeams n (cands.map DlCandidate.placement) ↔
      ∃ c ∈ cands, c.Eligible n ∧ c.allocBeamIdx = b := by
  simp only [sliceBeams, List.mem_toFinset, List.mem_map, List.mem_filter, decide_eq_true_eq]
  constructor
  · rintro ⟨p, ⟨⟨c, hc, rfl⟩, helig⟩, hb⟩
    exact ⟨c, hc, helig, hb⟩
  · rintro ⟨c, hc, helig, hb⟩
    exact ⟨c.placement, ⟨⟨c, hc, rfl⟩, helig⟩, hb⟩

theorem mem_eligibleBeams {beams : List (List DlCandidate)} {b : ℕ}
    (hsame : ∀ g ∈ beams, ∀ c ∈ g, ∀ c' ∈ g, SameBeam c c') :
    b ∈ eligibleBeams n beams ↔ ∃ g ∈ beams, ∃ c ∈ g, c.Eligible n ∧ c.allocBeamIdx = b := by
  simp only [eligibleBeams, List.mem_filterMap, Option.map_eq_some_iff]
  constructor
  · rintro ⟨g, hg, c, hfind, hb⟩
    have hfound := List.find?_some hfind
    exact ⟨g, hg, c, List.mem_of_find?_eq_some hfind, of_decide_eq_true hfound, hb⟩
  · rintro ⟨g, hg, c, hc, helig, rfl⟩
    have hsome : (g.find? fun c => decide (c.Eligible n)).isSome = true :=
      List.find?_isSome.mpr ⟨c, hc, decide_eq_true helig⟩
    obtain ⟨x, hx⟩ := Option.isSome_iff_exists.mp hsome
    exact ⟨g, hg, x, hx, hsame g hg x (List.mem_of_find?_eq_some hx) c hc⟩

theorem nodup_eligibleBeams {beams : List (List DlCandidate)}
    (h : beams.Pairwise fun g g' => ∀ c ∈ g, ∀ c' ∈ g', ¬ SameBeam c c') :
    (eligibleBeams n beams).Nodup := by
  refine List.Pairwise.filterMap _ (fun g g' hgg' b hb b' hb' => ?_) h
  obtain ⟨c, hfind, rfl⟩ := Option.map_eq_some_iff.mp hb
  obtain ⟨c', hfind', rfl⟩ := Option.map_eq_some_iff.mp hb'
  exact hgg' c (List.mem_of_find?_eq_some hfind) c' (List.mem_of_find?_eq_some hfind')

/-- A sum over the calls with candidates of the slice is one over the beams of the slice. -/
theorem sum_eligibleBeams (env : SlotEnv) (n : Nssai) (cands : List DlCandidate) (f : ℕ → ℕ) :
    ((eligibleBeams n (beamGroups (env.beamSort cands))).map f).sum =
      ∑ b ∈ sliceBeams n (cands.map DlCandidate.placement), f b := by
  rw [← List.sum_toFinset f (nodup_eligibleBeams (beamGroups_pairwise (env.beamSort_pairwise _)))]
  refine Finset.sum_congr ?_ fun _ _ => rfl
  ext b
  rw [List.mem_toFinset, mem_sliceBeams,
    mem_eligibleBeams fun g hg c hc c' hc' => sameBeam_of_mem_beamGroups hg hc hc']
  constructor
  · rintro ⟨g, hg, c, hc, hrest⟩
    exact ⟨c, mem_beamGroups_beamSort hg hc, hrest⟩
  · rintro ⟨c, hc, hrest⟩
    obtain ⟨g, hg, hcg⟩ := exists_beamGroup env hc
    exact ⟨g, hg, c, hcg, hrest⟩

/-- A slot gives a slice no more than its shares of the beams it has candidates on. -/
theorem allocBeams_load_le_beamShares {beams : List (List DlCandidate)} {s : SlotState}
    (h : Enforces mac i s) (hfresh : ∀ g ∈ beams, Fresh g)
    (hcarrier : ∀ g ∈ beams, InCarrier params.nRbAvail g)
    (hsame : ∀ g ∈ beams, ∀ c ∈ g, ∀ c' ∈ g, SameBeam c c') :
    sliceLoad (mac.dlSlicePolicy.entry i).nssai (allocBeams env params s beams).2 ≤
      ((eligibleBeams (mac.dlSlicePolicy.entry i).nssai beams).map (beamShare params.nRbAvail
        (sliceCap params (mac.dlSlicePolicy.entry i).dedicatedPrbRatio))).sum := by
  induction beams generalizing s with
  | nil => exact Nat.zero_le _
  | cons g beams ih =>
    have hrest := ih (h.next env params g) (fun x hx => hfresh x (List.mem_cons_of_mem g hx))
      (fun x hx => hcarrier x (List.mem_cons_of_mem g hx))
      fun x hx => hsame x (List.mem_cons_of_mem g hx)
    have hg_fresh := hfresh g List.mem_cons_self
    rw [allocBeams, sliceLoad_append]
    cases hfind : g.find? fun c => decide (c.Eligible (mac.dlSlicePolicy.entry i).nssai) with
    | none =>
      have hnone : ∀ c ∈ g, ¬ c.Eligible (mac.dlSlicePolicy.entry i).nssai :=
        fun c hc helig => List.find?_eq_none.mp hfind c hc (decide_eq_true helig)
      rw [eligibleBeams_cons_of_none hnone,
        nrDlSlicePrbPolicy_load_eq_zero env params h hg_fresh hnone, Nat.zero_add]
      exact hrest
    | some x =>
      have hx := List.mem_of_find?_eq_some hfind
      rw [eligibleBeams_cons_of_some hfind, List.map_cons, List.sum_cons]
      exact Nat.add_le_add (nrDlSlicePrbPolicy_load_le_beamShare h hg_fresh
        (hcarrier g List.mem_cons_self)
        fun c hc => hsame g List.mem_cons_self c hc x hx) hrest

theorem InCarrier.of_subset {nRbAvail : ℕ → ℕ} {cands g : List DlCandidate}
    (h : InCarrier nRbAvail cands) (hg : ∀ c ∈ g, c ∈ cands) : InCarrier nRbAvail g := by
  obtain ⟨sym, hsym⟩ := h.symbol
  exact ⟨fun c hc => h.bwp c (hg c hc), sym, fun c hc => hsym c (hg c hc)⟩

/-- Placed candidates keep a slice within its cap in every slot exactly when what it can get on its
beams adds up to no more than the cap: each call has the budget of the whole slot. -/
theorem sliceCapped_iff (nrComputeTbs : DlCandidate → ℕ → BitVec 32) (params : DlSchedParams)
    (hswitch : mac.SwitchConsistent) (hdistinct : mac.DistinctSlices)
    (hi : i < mac.dlSlicePolicyCount) (hactive : (mac.dlSlicePolicy.entry i).active = true)
    (places : List Placement) :
    (∀ cands : List DlCandidate, cands.map DlCandidate.placement = places → Fresh cands →
        InCarrier params.nRbAvail cands → SliceCapped nrComputeTbs params mac i cands) ↔
      ∑ b ∈ sliceBeams (mac.dlSlicePolicy.entry i).nssai places,
          beamShare params.nRbAvail
            (sliceCap params (mac.dlSlicePolicy.entry i).dedicatedPrbRatio) b ≤
        sliceCap params (mac.dlSlicePolicy.entry i).dedicatedPrbRatio := by
  have hown := hdistinct.ownsSlice hi hactive
  have hen : mac.dlSlicePolicyEnabled = true := hswitch.mpr ((Nat.zero_le i).trans_lt hi)
  constructor
  · intro h
    have hplaces : (places.map (Placement.crowded params.nRbAvail)).map
        DlCandidate.placement = places := by
      rw [List.map_map]
      exact (List.map_congr_left fun r _ => Placement.placement_crowded _ r).trans (List.map_id _)
    have hcarrier : InCarrier params.nRbAvail
        (places.map (Placement.crowded params.nRbAvail)) := by
      refine ⟨fun c hc _ => ?_, 0, fun c hc _ => ?_⟩
      · obtain ⟨p, -, rfl⟩ := List.mem_map.mp hc
        exact (Nat.zero_add _).le
      · obtain ⟨p, -, rfl⟩ := List.mem_map.mp hc
        have hsymbol : (1 : BitVec 16).getLsbD 0 = true := by decide
        exact hsymbol
    have hfresh : Fresh (places.map (Placement.crowded params.nRbAvail)) := by
      intro c hc _
      obtain ⟨p, -, rfl⟩ := List.mem_map.mp hc
      rfl
    -- all beams are free and nothing but the slice passes a validation
    have hle := h _ hplaces hfresh hcarrier
      (crowdedEnv nrComputeTbs (mac.dlSlicePolicy.entry i).nssai) (fun _ _ => 0) rfl
    have hge := allocBeams_load_ge (crowdedEnv nrComputeTbs (mac.dlSlicePolicy.entry i).nssai)
      params (s := ⟨mac, fun _ _ => 0, 0, 0⟩) ⟨hown, .refl mac, hen⟩ (totalBudget_eq params _)
      (crowdedSlot_crowded nrComputeTbs _ params.nRbAvail _ places) fun _ _ _ _ => rfl
    rw [sum_eligibleBeams, hplaces] at hge
    exact hge.trans hle
  · rintro h cands rfl hfresh hcarrier env vrbMap -
    have hsum := sum_eligibleBeams env (mac.dlSlicePolicy.entry i).nssai cands
      (beamShare params.nRbAvail (sliceCap params (mac.dlSlicePolicy.entry i).dedicatedPrbRatio))
    refine le_trans ?_ (hsum.le.trans h)
    exact allocBeams_load_le_beamShares ⟨hown, .refl mac, hen⟩
      (fun g hg c hc => hfresh c (mem_beamGroups_beamSort hg hc))
      (fun g hg => hcarrier.of_subset fun c hc => mem_beamGroups_beamSort hg hc)
      fun g hg c hc c' hc' => sameBeam_of_mem_beamGroups hg hc hc'

end Slot

theorem inCarrier_loadedUes (beam : ℕ) :
    InCarrier twoBeams.nRbAvail [loadedUe 1 0, loadedUe 2 beam] := by
  refine ⟨by simp [loadedUe, twoBeams], 5, by simp [loadedUe]⟩

/-- Two UEs of a 40 % slice on two beams of 25 resource blocks take 20 each, twice the 20 that are
the slice's share of both beams. -/
theorem not_sliceCapped_twoBeams :
    SliceState.oneSlice.SwitchConsistent ∧ SliceState.oneSlice.DistinctSlices ∧
      Fresh [loadedUe 1 0, loadedUe 2 1] ∧
      InCarrier twoBeams.nRbAvail [loadedUe 1 0, loadedUe 2 1] ∧
      ¬ SliceCapped flatTbs twoBeams SliceState.oneSlice 0 [loadedUe 1 0, loadedUe 2 1] := by
  refine ⟨oneSlice_switchConsistent, oneSlice_distinctSlices, by simp [Fresh, loadedUe],
    inCarrier_loadedUes 1, fun h => ?_⟩
  have hload : sliceLoad ⟨1, 1⟩ (nrDlSchedule (crowdedEnv flatTbs ⟨1, 1⟩) twoBeams
      SliceState.oneSlice (fun _ _ => 0) [loadedUe 1 0, loadedUe 2 1]).2 = 40 := by
    decide +kernel
  have hcap : sliceCap twoBeams 40 = 20 := by decide
  have hle : sliceLoad ⟨1, 1⟩ (nrDlSchedule (crowdedEnv flatTbs ⟨1, 1⟩) twoBeams
      SliceState.oneSlice (fun _ _ => 0) [loadedUe 1 0, loadedUe 2 1]).2 ≤ sliceCap twoBeams 40 :=
    h (crowdedEnv flatTbs ⟨1, 1⟩) (fun _ _ => 0) rfl
  omega

/-- With both UEs on one beam, every slot of the cell keeps the slice within its 20 resource
blocks. -/
theorem sliceCapped_oneBeam :
    SliceCapped flatTbs twoBeams SliceState.oneSlice 0 [loadedUe 1 0, loadedUe 2 0] := by
  have hshares := (sliceCapped_iff flatTbs twoBeams oneSlice_switchConsistent
    oneSlice_distinctSlices Nat.zero_lt_one rfl
    [⟨0, ⟨1, 1⟩, true, false⟩, ⟨0, ⟨1, 1⟩, true, false⟩]).mpr (by decide)
  exact hshares _ rfl (by simp [Fresh, loadedUe]) (inCarrier_loadedUes 0)

end LlmHric.Mac
