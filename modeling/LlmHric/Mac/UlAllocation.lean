import LlmHric.Library.Run
import LlmHric.Mac.ExclusiveAllocation
import LlmHric.Mac.UlScheduler
import LlmHric.Library.Packing

/-! The uplink policy sizes an allocation in several steps, takes it in the VRB map of its beam and
leaves the rest to the dispatch, which reads the sizes of a retransmission again from the HARQ
process. This file shows that the allocations of a policy call do not collide, and that the PUSCH
that is dispatched occupies what its candidate was given. The second part rests on an invariant of
the cell: a HARQ process in use keeps an entry of the table of time-domain allocations together with
its index. -/

namespace LlmHric.Mac

open Sweep Packing Run

/-- The positions of the candidate's allocation, as pairs of a resource block and a symbol. -/
def UlCandidate.rectangle (c : UlCandidate) : Set (ℕ × ℕ) :=
  {p | c.schedPusch.rbStart + c.bwpStart ≤ p.1 ∧
    p.1 < c.schedPusch.rbStart + c.bwpStart + c.schedPusch.rbSize ∧
    c.allocSlbitmap.getLsbD p.2 = true}

/-- The positions of a PUSCH. -/
def SchedPusch.rectangle (sched : SchedPusch) : Set (ℕ × ℕ) :=
  {p | sched.rbStart + sched.bwpStart ≤ p.1 ∧
    p.1 < sched.rbStart + sched.bwpStart + sched.rbSize ∧
    sched.tdaInfo.slbitmap.getLsbD p.2 = true}

def UlCandidate.bandwidthPart (c : UlCandidate) : Set (ℕ × ℕ) :=
  {p | c.bwpStart ≤ p.1 ∧ p.1 < c.bwpStart + c.bwpSize}

/-- Scheduled candidates are placed on their beams. -/
def ulLayout : Packing.Layout UlCandidate ℤ (ℕ × ℕ) where
  placed c := c.scheduled = true
  place c := c.allocBeamIdx
  region c := c.rectangle

/-- The taken positions of every beam. -/
def ulTaken (vrbMap : ℤ → VrbMap) (b : ℤ) : Set (ℕ × ℕ) := (vrbMap b).taken

/-- The rectangles of the scheduled candidates on one beam do not overlap, contain no position that
was taken before, and lie inside the bandwidth parts. -/
structure UlExclusive (vrbMap : ℤ → VrbMap) (cands : List UlCandidate) : Prop where
  exclusive : ulLayout.Exclusive (ulTaken vrbMap) cands
  inside : ∀ c ∈ cands, c.scheduled = true → c.rectangle ⊆ c.bandwidthPart

def UlUnscheduled (cands : List UlCandidate) : Prop := ∀ c ∈ cands, c.scheduled = false

/-! ### The policy -/

section Policy

variable {env : UlEnv} {ues : ℕ → NrUeInfo} {target : UlTarget} {maxNumUe : ℕ} {s : UlPolicyState}
  {c : UlCandidate} {cands : List UlCandidate}

/-- A free block is inside the bandwidth part and touches no taken position. -/
theorem UlCandidate.Fits.rectangle_allocate {rbStart rbSize : ℕ}
    (h : c.Fits s.vrbMap rbStart rbSize) (mcs : ℕ) :
    (c.allocate rbStart rbSize mcs).rectangle ⊆ c.bandwidthPart ∧
      Disjoint (c.allocate rbStart rbSize mcs).rectangle (ulTaken s.vrbMap c.allocBeamIdx) := by
  have hinside := h.inside
  constructor
  · rintro p ⟨hfirst, hlast, -⟩
    simp only [UlCandidate.allocate] at hfirst hlast
    exact ⟨by omega, by omega⟩
  · refine Set.disjoint_left.mpr ?_
    rintro ⟨rb, sym⟩ ⟨hfirst, hlast, hsym⟩
    simp only [UlCandidate.allocate] at hfirst hlast hsym
    -- the search counts from the start of the bandwidth part
    have hfree := h.free (rb - c.bwpStart) (by omega) (by omega)
    dsimp only at hfree
    rw [Nat.sub_add_cancel (by omega)] at hfree
    exact VrbMap.not_mem_taken_of_isFree hfree hsym

/-- What a policy call has made of its candidates so far: the allocations are packed into the maps
and inside the bandwidth parts, and a retransmission has the resource blocks it needs. -/
structure UlPlaced (env : UlEnv) (base : ℤ → VrbMap) (order : List UlCandidate)
    (s : UlPolicyState) (items : List UlCandidate) : Prop where
  packed : ulLayout.Packed (ulTaken base) (ulTaken s.vrbMap) items
  inside : ∀ c ∈ items, c.scheduled = true → c.rectangle ⊆ c.bandwidthPart
  exact : ∀ c ∈ items, c.scheduled = true → c.isRetx = true → c.schedPusch.rbSize = c.retxRbSize
  frames : items.map UlCandidate.frame = order.map UlCandidate.frame
  hung : s.hung = true → env.minGrantPrb = 0

/-- The candidate is scheduled in an earlier phase than `i`, or not at all. -/
def UlCandidate.ServedBefore (i : ℕ) (c : UlCandidate) : Prop := c.scheduled = true → c.phase < i

theorem mem_of_mem_middle {α : Type*} {pre post : List α} {a a' x : α}
    (h : x ∈ pre ++ a' :: post) : x = a' ∨ x ∈ pre ++ a :: post := by
  simp only [List.mem_append, List.mem_cons] at h ⊢
  tauto

/-- A round keeps the invariant. -/
theorem UlVisitStep.placed {base : ℤ → VrbMap} {i : ℕ} {order pre post : List UlCandidate}
    {v : Visit UlPolicyState UlCandidate} (hstep : UlVisitStep env target maxNumUe i s c v)
    (hc : c.ServedBefore i) (h : UlPlaced env base order s (pre ++ c :: post)) :
    UlPlaced env base order v.state (pre ++ v.item :: post) ∧ v.item.ServedBefore (i + 1) := by
  have hframes : (pre ++ v.item :: post).map UlCandidate.frame = order.map UlCandidate.frame := by
    rw [← h.frames]
    simp only [List.map_append, List.map_cons, hstep.frame]
  cases hstep with
  | pass => exact ⟨h, fun hs => Nat.lt_succ_of_lt (hc hs)⟩
  | hang hmin =>
    exact ⟨⟨h.packed, h.inside, h.exact, h.frames, fun _ => hmin⟩,
      fun hs => Nat.lt_succ_of_lt (hc hs)⟩
  | commit rbStart rbSize mcs hphase hfits hretx =>
    have hun : c.scheduled = false := by
      by_contra hs
      rw [Bool.not_eq_false] at hs
      exact absurd hphase (Nat.ne_of_lt (hc hs))
    obtain ⟨hinside, hfree⟩ := hfits.rectangle_allocate mcs
    cases hvalid : target.nrUlValidateCce s.validations (c.allocate rbStart rbSize mcs) with
    | false =>
      -- the allocation is written all the same, but the candidate stays unscheduled
      rw [commitUlAllocOrStop_of_invalid hvalid] at hframes ⊢
      have hitem : ¬ (c.allocate rbStart rbSize mcs).scheduled = true := by
        change ¬ c.scheduled = true
        rw [hun]
        exact Bool.false_ne_true
      refine ⟨⟨h.packed.replace (fun _ => subset_rfl) fun hs => absurd hs hitem, ?_, ?_, hframes,
        h.hung⟩, fun hs => absurd hs hitem⟩
      · intro x hx hs
        rcases mem_of_mem_middle hx with rfl | hx
        · exact absurd hs hitem
        · exact h.inside x hx hs
      · intro x hx hs
        rcases mem_of_mem_middle hx with rfl | hx
        · exact absurd hs hitem
        · exact h.exact x hx hs
    | true =>
      rw [commitUlAllocOrStop_of_valid hvalid] at hframes ⊢
      dsimp only at hframes ⊢
      have hgrow : ∀ b, ulTaken s.vrbMap b ⊆ ulTaken (Function.update s.vrbMap c.allocBeamIdx
          ((s.vrbMap c.allocBeamIdx).mark c.allocSlbitmap (rbStart + c.bwpStart) rbSize)) b := by
        intro b p hp
        unfold ulTaken at hp ⊢
        by_cases hb : b = c.allocBeamIdx
        · subst hb
          rw [Function.update_self]
          exact VrbMap.mem_taken_mark.mpr (.inl hp)
        · rwa [Function.update_of_ne hb]
      refine ⟨⟨h.packed.replace hgrow fun _ => ⟨hfree, fun p hp => ?_⟩, ?_, ?_, hframes, h.hung⟩,
        fun _ => ?_⟩
      · change p ∈ (Function.update s.vrbMap c.allocBeamIdx _ c.allocBeamIdx).taken
        rw [Function.update_self]
        exact VrbMap.mem_taken_mark.mpr (.inr hp)
      · intro x hx hs
        rcases mem_of_mem_middle hx with rfl | hx
        · exact hinside
        · exact h.inside x hx hs
      · intro x hx hs hxr
        rcases mem_of_mem_middle hx with rfl | hx
        · exact hretx hxr
        · exact h.exact x hx hs hxr
      · exact hphase ▸ Nat.lt_succ_self c.phase

/-- The phases keep the invariant. -/
theorem ulPhases_placed (env : UlEnv) (ues : ℕ → NrUeInfo) (target : UlTarget) (maxNumUe : ℕ)
    (s : UlPolicyState) {order : List UlCandidate} (h : UlUnscheduled order)
    (hhung : s.hung = false) :
    UlPlaced env s.vrbMap order (runAll (ulPhases env ues target maxNumUe) s order).state
      (runAll (ulPhases env ues target maxNumUe) s order).items := by
  refine runAll_invariant (P := UlCandidate.ServedBefore)
    (fun i visit hi pre t a post ha hI => (ulPhases_step hi).placed ha hI)
    (fun i a ha hs => Nat.lt_succ_of_lt (ha hs)) (fun a ha hs => ?_) ?_
  · rw [h a ha] at hs
    cases hs
  · have hnot : ∀ c ∈ order, ¬ c.scheduled = true := by
      intro c hc
      rw [h c hc]
      exact Bool.false_ne_true
    refine ⟨.start hnot _, fun c hc hs => absurd hs (hnot c hc),
      fun c hc hs => absurd hs (hnot c hc), rfl, fun hs => ?_⟩
    rw [hhung] at hs
    cases hs

/-- What a policy call leaves, when it comes back. -/
theorem nrUlProportionalFair_eq_some {s' : UlPolicyState} {cands' : List UlCandidate}
    (h : UlUnscheduled cands)
    (hrun : nrUlProportionalFair env ues target maxNumUe s cands = some (s', cands')) :
    ∃ items, cands' = items ++ cands.filter (fun c => c.skipped) ∧
      UlPlaced env s.vrbMap (env.pfRbSort (cands.filter fun c => !c.skipped)) s' items := by
  have horder : UlUnscheduled (env.pfRbSort (cands.filter fun c => !c.skipped)) := fun c hc =>
    h c (List.mem_filter.mp ((env.pfRbSort_perm _).mem_iff.mp hc)).1
  have hplaced := ulPhases_placed env ues target maxNumUe
    { s with nScheduled := 0, hung := false } horder rfl
  unfold nrUlProportionalFair at hrun
  dsimp only at hrun
  split_ifs at hrun
  cases hrun
  exact ⟨_, rfl, hplaced⟩

/-- The rectangles of the scheduled candidates of a policy call do not collide with each other or
with what was taken before, and lie inside the bandwidth parts. -/
theorem UlPlaced.ulExclusive {base : ℤ → VrbMap} {order items skipped : List UlCandidate}
    (h : UlPlaced env base order s items) (hskipped : UlUnscheduled skipped) :
    UlExclusive base (items ++ skipped) := by
  have hnot : ∀ c ∈ skipped, ¬ c.scheduled = true := by
    intro c hc
    rw [hskipped c hc]
    exact Bool.false_ne_true
  refine ⟨h.packed.exclusive.append hnot, fun c hc hs => ?_⟩
  rcases List.mem_append.mp hc with hc | hc
  · exact h.inside c hc hs
  · exact absurd hs (hnot c hc)

/-- A policy call comes back when the smallest grant is not empty. -/
theorem nrUlProportionalFair_isSome (h : UlUnscheduled cands) (hmin : 0 < env.minGrantPrb) :
    (nrUlProportionalFair env ues target maxNumUe s cands).isSome = true := by
  have horder : UlUnscheduled (env.pfRbSort (cands.filter fun c => !c.skipped)) := fun c hc =>
    h c (List.mem_filter.mp ((env.pfRbSort_perm _).mem_iff.mp hc)).1
  have hplaced := ulPhases_placed env ues target maxNumUe
    { s with nScheduled := 0, hung := false } horder rfl
  unfold nrUlProportionalFair
  dsimp only
  split_ifs with hhung
  · exact absurd (hplaced.hung hhung) (Nat.ne_of_gt hmin)
  · rfl

end Policy

/-! ### From the collection to the policy -/

/-- Where a candidate comes from. -/
structure UlOrigin where
  ue : ℕ
  isRetx : Bool
  retxHarqPid : ℕ
  bwpStart : ℕ
  scheduled : Bool

def UlCandidate.origin (c : UlCandidate) : UlOrigin :=
  ⟨c.ue, c.isRetx, c.retxHarqPid, c.bwpStart, c.scheduled⟩

/-- The candidate was collected from its UE: it has the bandwidth part of the UE, and a
retransmission is for the process that is to be retransmitted first. -/
structure UlCandidate.Collected (ues : ℕ → NrUeInfo) (c : UlCandidate) : Prop where
  bwpStart : c.bwpStart = (getPuschBwpStartSize (ues c.ue)).1
  pid : c.isRetx = true → (ues c.ue).schedCtrl.retransUlHarq.head = some c.retxHarqPid
  unscheduled : c.scheduled = false

/-- The candidate has a time-domain allocation, and a retransmission that keeps its own keeps its
size. -/
structure UlCandidate.Ready (env : UlEnv) (ues : ℕ → NrUeInfo) (c : UlCandidate) : Prop where
  bwpStart : c.bwpStart = (getPuschBwpStartSize (ues c.ue)).1
  pid : c.isRetx = true → (ues c.ue).schedCtrl.retransUlHarq.head = some c.retxHarqPid
  tda : env.ulTda[c.schedPusch.timeDomainAllocation]? = some c.schedPusch.tdaInfo
  slbitmap : c.allocSlbitmap = c.schedPusch.tdaInfo.slbitmap
  refit : c.isRetx = true →
    ((ues c.ue).schedPusch c.retxHarqPid).timeDomainAllocation =
      c.schedPusch.timeDomainAllocation →
    c.retxRbSize = ((ues c.ue).schedPusch c.retxHarqPid).rbSize

section Stages

variable {env : UlEnv} {ues : ℕ → NrUeInfo} {target : UlTarget} {c c' : UlCandidate}
  {cands cands' : List UlCandidate}

theorem UlCandidate.Collected.of_origin (h : c.Collected ues) (ho : c'.origin = c.origin) :
    c'.Collected ues := by
  have hue : c'.ue = c.ue := congrArg UlOrigin.ue ho
  have hretx : c'.isRetx = c.isRetx := congrArg UlOrigin.isRetx ho
  have hpid : c'.retxHarqPid = c.retxHarqPid := congrArg UlOrigin.retxHarqPid ho
  have hbwp : c'.bwpStart = c.bwpStart := congrArg UlOrigin.bwpStart ho
  have hs : c'.scheduled = c.scheduled := congrArg UlOrigin.scheduled ho
  exact ⟨by rw [hbwp, hue, h.bwpStart], by rw [hretx, hue, hpid]; exact h.pid,
    hs.trans h.unscheduled⟩

/-- A stage that keeps the origins, in some order, keeps that all are collected. -/
theorem collected_of_origins (ho : (cands'.map UlCandidate.origin).Perm
    (cands.map UlCandidate.origin)) (h : ∀ c ∈ cands, c.Collected ues) :
    ∀ c ∈ cands', c.Collected ues := by
  intro c' hc'
  obtain ⟨c, hc, heq⟩ := List.mem_map.mp (ho.mem_iff.mp (List.mem_map_of_mem hc'))
  exact (h c hc).of_origin heq.symm

theorem collectUlCandidate_collected {i : ℕ} {ue : NrUeInfo}
    (h : collectUlCandidate env target i ue = some c) :
    c.ue = i ∧ c.bwpStart = (getPuschBwpStartSize ue).1 ∧
      (c.isRetx = true → ue.schedCtrl.retransUlHarq.head = some c.retxHarqPid) ∧
      c.scheduled = false := by
  unfold collectUlCandidate at h
  by_cases hactive : (!ue.isActive) = true
  · rw [if_pos hactive] at h
    cases h
  rw [if_neg hactive] at h
  split at h
  next pid hhead =>
    obtain rfl := Option.some.inj h
    exact ⟨rfl, rfl, fun _ => hhead, rfl⟩
  next =>
    split_ifs at h
    dsimp only at h
    split_ifs at h
    obtain rfl := Option.some.inj h
    exact ⟨rfl, rfl, (fun hretx => by cases hretx), rfl⟩

theorem collectUlCandidates_collected {connected : List ℕ}
    (hc : c ∈ collectUlCandidates env target ues connected) : c.Collected ues := by
  obtain ⟨i, -, hi⟩ := List.mem_filterMap.mp hc
  obtain ⟨rfl, hbwp, hpid, hs⟩ := collectUlCandidate_collected hi
  exact ⟨hbwp, hpid, hs⟩

theorem collectUlCandidates_nodup {connected : List ℕ} (h : connected.Nodup) :
    ((collectUlCandidates env target ues connected).map UlCandidate.ue).Nodup := by
  rw [collectUlCandidates, List.map_filterMap]
  refine h.filterMap fun i j x hi hj => ?_
  obtain ⟨c, hc, rfl⟩ := Option.map_eq_some_iff.mp hi
  obtain ⟨c', hc', heq⟩ := Option.map_eq_some_iff.mp hj
  exact (collectUlCandidate_collected hc).1.symm.trans
    (heq.symm.trans (collectUlCandidate_collected hc').1)

theorem origin_ulBeamSelect (n : ℕ) (info : Option NrBeamInfo) :
    (ulBeamSelect n target info c).2.origin = c.origin := by
  unfold ulBeamSelect
  dsimp only
  split
  · rfl
  · split
    · rfl
    · rfl

theorem origins_ulBeamSelectLoop (n : ℕ) (info : Option NrBeamInfo) :
    (ulBeamSelectLoop n target info cands).2.map UlCandidate.origin =
      cands.map UlCandidate.origin := by
  induction cands generalizing info with
  | nil => rfl
  | cons c cands ih =>
    rw [ulBeamSelectLoop, List.map_cons, List.map_cons, ih, origin_ulBeamSelect]

/-- A candidate with a time-domain allocation is ready for the policy. -/
theorem ulTdaSelect_ready {vrbMap : ℤ → VrbMap} {window : ℕ × ℕ} (hwindow : 0 < window.2)
    (hc : c.Collected ues) (h : ulTdaSelect env ues vrbMap window c = some c') :
    c'.origin = c.origin ∧ (c'.skipped = false → c'.Ready env ues) := by
  unfold ulTdaSelect at h
  by_cases hskipped : c.skipped = true
  · rw [if_pos hskipped] at h
    obtain rfl := Option.some.inj h
    exact ⟨rfl, fun hs => absurd (hs.symm.trans hskipped) Bool.false_ne_true⟩
  rw [if_neg hskipped] at h
  dsimp only at h
  have hbest := getBestUlTda_lt (vrbMap c.allocBeamIdx) env.ulprbbl c.bwpSize hwindow
    (List.length_take_le window.2 (env.ulTda.drop window.1))
  generalize hindex : window.1 + getBestUlTda (vrbMap c.allocBeamIdx) env.ulprbbl c.bwpSize
    ((env.ulTda.drop window.1).take window.2) = index at h
  cases hretx : c.isRetx with
  | true =>
    rw [if_pos hretx] at h
    obtain ⟨orig, horig, h⟩ := Option.bind_eq_some_iff.mp h
    by_cases hin : window.1 ≤ ((ues c.ue).schedPusch c.retxHarqPid).timeDomainAllocation ∧
        ((ues c.ue).schedPusch c.retxHarqPid).timeDomainAllocation < window.1 + window.2
    · -- the time-domain allocation of the first transmission is on offer
      rw [if_pos hin] at h
      obtain rfl := Option.some.inj h
      exact ⟨rfl, fun _ => ⟨hc.bwpStart, hc.pid, horig, rfl, fun _ _ => rfl⟩⟩
    · rw [if_neg hin] at h
      obtain ⟨best, hget, h⟩ := Option.bind_eq_some_iff.mp h
      by_cases hrange : index < 16
      swap
      · rw [if_neg hrange] at h
        cases h
      rw [if_pos hrange] at h
      obtain ⟨needed, -, h⟩ := Option.bind_eq_some_iff.mp h
      split_ifs at h
      · obtain rfl := Option.some.inj h
        exact ⟨rfl, (fun hs => by cases hs)⟩
      · obtain rfl := Option.some.inj h
        refine ⟨rfl, fun _ => ⟨hc.bwpStart, hc.pid, hget, rfl, fun _ hsame => ?_⟩⟩
        -- the new one is on offer, the old one is not
        have hsame : ((ues c.ue).schedPusch c.retxHarqPid).timeDomainAllocation = index := hsame
        exact absurd ⟨by omega, by omega⟩ hin
  | false =>
    have hno : ¬ c.isRetx = true := by rw [hretx]; exact Bool.false_ne_true
    rw [if_neg hno] at h
    obtain ⟨best, hget, h⟩ := Option.bind_eq_some_iff.mp h
    split_ifs at h
    obtain rfl := Option.some.inj h
    exact ⟨rfl, fun _ => ⟨hc.bwpStart, hc.pid, hget, rfl, fun hr => absurd hr hno⟩⟩

theorem UlCandidate.Ready.of_frame (h : c.Ready env ues) (hf : c'.frame = c.frame) :
    c'.Ready env ues := by
  have hue : c'.ue = c.ue := (congrArg UlCandidate.ue hf :)
  have hretx : c'.isRetx = c.isRetx := (congrArg UlCandidate.isRetx hf :)
  have hpid : c'.retxHarqPid = c.retxHarqPid := (congrArg UlCandidate.retxHarqPid hf :)
  have hsize : c'.retxRbSize = c.retxRbSize := (congrArg UlCandidate.retxRbSize hf :)
  have hbwp : c'.bwpStart = c.bwpStart := (congrArg UlCandidate.bwpStart hf :)
  have hmap : c'.allocSlbitmap = c.allocSlbitmap := (congrArg UlCandidate.allocSlbitmap hf :)
  have hindex : c'.schedPusch.timeDomainAllocation = c.schedPusch.timeDomainAllocation :=
    (congrArg (fun c => c.schedPusch.timeDomainAllocation) hf :)
  have hinfo : c'.schedPusch.tdaInfo = c.schedPusch.tdaInfo :=
    (congrArg (fun c => c.schedPusch.tdaInfo) hf :)
  refine ⟨by rw [hbwp, hue, h.bwpStart], ?_, ?_, ?_, ?_⟩
  · rw [hretx, hue, hpid]
    exact h.pid
  · rw [hindex, hinfo]
    exact h.tda
  · rw [hmap, hinfo]
    exact h.slbitmap
  · rw [hretx, hue, hpid, hindex, hsize]
    exact h.refit

theorem mapM_ulTdaSelect_ready {vrbMap : ℤ → VrbMap} {window : ℕ × ℕ} (hwindow : 0 < window.2)
    (hc : ∀ c ∈ cands, c.Collected ues)
    (h : cands.mapM (ulTdaSelect env ues vrbMap window) = some cands') :
    cands'.map UlCandidate.origin = cands.map UlCandidate.origin ∧
      ∀ c ∈ cands', c.skipped = false → c.Ready env ues := by
  induction cands generalizing cands' with
  | nil =>
    obtain rfl := Option.some.inj h
    exact ⟨rfl, fun c hc => absurd hc List.not_mem_nil⟩
  | cons c cands ih =>
    rw [List.mapM_cons] at h
    obtain ⟨c', hhead, h⟩ := Option.bind_eq_some_iff.mp h
    obtain ⟨rest, htail, h⟩ := Option.bind_eq_some_iff.mp h
    obtain rfl := Option.some.inj h
    obtain ⟨horigin, hready⟩ := ulTdaSelect_ready hwindow (hc c List.mem_cons_self) hhead
    obtain ⟨horigins, hreadys⟩ := ih (fun x hx => hc x (List.mem_cons_of_mem c hx)) htail
    refine ⟨by rw [List.map_cons, List.map_cons, horigin, horigins], fun x hx => ?_⟩
    rcases List.mem_cons.mp hx with rfl | hx
    · exact hready
    · exact hreadys x hx

/-- The candidates after the choice of time-domain allocations. -/
theorem nrUlTdaSelectDefault_ready {vrbMap : ℤ → VrbMap} {n : ℕ}
    (hc : ∀ c ∈ cands, c.Collected ues)
    (h : nrUlTdaSelectDefault env ues target vrbMap cands = some (n, cands')) (hn : n ≠ 0) :
    cands'.map UlCandidate.origin = cands.map UlCandidate.origin ∧
      ∀ c ∈ cands', c.skipped = false → c.Ready env ues := by
  obtain ⟨window, -, h⟩ := Option.bind_eq_some_iff.mp h
  split_ifs at h with hzero
  · cases h
    exact absurd rfl hn
  obtain ⟨out, hmap, h⟩ := Option.bind_eq_some_iff.mp h
  cases h
  exact mapM_ulTdaSelect_ready (Nat.pos_of_ne_zero hzero) hc hmap

/-- The MCS does not matter for any of this. -/
theorem nrUlMcsSelectDefault_ready (h : ∀ c ∈ cands, c.skipped = false → c.Ready env ues) :
    (nrUlMcsSelectDefault env ues cands).map UlCandidate.origin = cands.map UlCandidate.origin ∧
      ∀ c ∈ nrUlMcsSelectDefault env ues cands, c.skipped = false → c.Ready env ues := by
  constructor
  · rw [nrUlMcsSelectDefault, List.map_map]
    rfl
  · intro c' hc' hs
    obtain ⟨c, hc, rfl⟩ := List.mem_map.mp hc'
    exact (h c hc hs).of_frame rfl

/-- A candidate after the policy calls: one that is scheduled was not dropped, and a retransmission
has the resource blocks it needs. -/
def UlCandidate.Allocated (c : UlCandidate) : Prop :=
  c.scheduled = true → c.skipped = false ∧ (c.isRetx = true → c.schedPusch.rbSize = c.retxRbSize)

theorem nrUlProportionalFair_allocated {maxNumUe : ℕ} {s s' : UlPolicyState}
    (h : UlUnscheduled cands)
    (hrun : nrUlProportionalFair env ues target maxNumUe s cands = some (s', cands')) :
    (cands'.map UlCandidate.frame).Perm (cands.map UlCandidate.frame) ∧
      ∀ c ∈ cands', c.Allocated := by
  obtain ⟨items, rfl, hplaced⟩ := nrUlProportionalFair_eq_some h hrun
  constructor
  · rw [List.map_append, hplaced.frames, ← List.map_append]
    refine List.Perm.map _ (((env.pfRbSort_perm _).append_right _).trans ?_)
    have hsplit := List.filter_append_perm (fun c : UlCandidate => c.skipped) cands
    exact List.perm_append_comm.trans hsplit
  · intro c hc hs
    rcases List.mem_append.mp hc with hc | hc
    · refine ⟨?_, hplaced.exact c hc hs⟩
      -- only candidates that were not dropped are in the order
      have hframe : c.frame ∈ items.map UlCandidate.frame := List.mem_map_of_mem hc
      rw [hplaced.frames] at hframe
      obtain ⟨c₀, hc₀, heq⟩ := List.mem_map.mp hframe
      have hkeep := (List.mem_filter.mp ((env.pfRbSort_perm _).mem_iff.mp hc₀)).2
      have hskipped : c₀.skipped = c.skipped := (congrArg UlCandidate.skipped heq :)
      rw [← hskipped]
      exact Bool.not_eq_true' _ ▸ hkeep
    · have hun := h c (List.mem_filter.mp hc).1
      rw [hun] at hs
      cases hs

/-- The policy calls of a slot. -/
theorem allocUlBeams_allocated {maxNumUe : ℕ} {s s' : UlPolicyState}
    {groups : List (List UlCandidate)} (h : ∀ g ∈ groups, UlUnscheduled g)
    (hrun : allocUlBeams env ues target maxNumUe s groups = some (s', cands')) :
    (cands'.map UlCandidate.frame).Perm (groups.flatten.map UlCandidate.frame) ∧
      ∀ c ∈ cands', c.Allocated := by
  induction groups generalizing s s' cands' with
  | nil =>
    cases hrun
    exact ⟨.refl _, fun c hc => absurd hc List.not_mem_nil⟩
  | cons g groups ih =>
    have hg := h g List.mem_cons_self
    have htail : ∀ g' ∈ groups, UlUnscheduled g' := fun g' hg' => h g' (List.mem_cons_of_mem g hg')
    rw [allocUlBeams] at hrun
    rw [List.flatten_cons, List.map_append]
    split_ifs at hrun
    · obtain ⟨⟨t, rest⟩, hrest, hrun⟩ := Option.bind_eq_some_iff.mp hrun
      cases hrun
      obtain ⟨hperm, halloc⟩ := ih htail hrest
      rw [List.map_append]
      refine ⟨hperm.append_left _, fun c hc hs => ?_⟩
      rcases List.mem_append.mp hc with hc | hc
      · have hun := hg c hc
        rw [hun] at hs
        cases hs
      · exact halloc c hc hs
    · obtain ⟨⟨t, out⟩, hcall, hrun⟩ := Option.bind_eq_some_iff.mp hrun
      obtain ⟨⟨u, rest⟩, hrest, hrun⟩ := Option.bind_eq_some_iff.mp hrun
      cases hrun
      obtain ⟨hperm, halloc⟩ := nrUlProportionalFair_allocated hg hcall
      obtain ⟨hperm', halloc'⟩ := ih htail hrest
      rw [List.map_append]
      refine ⟨hperm.append hperm', fun c hc => ?_⟩
      rcases List.mem_append.mp hc with hc | hc
      · exact halloc c hc
      · exact halloc' c hc

end Stages

/-! ### The dispatch -/

/-- A process in use keeps an entry of the table together with its index. -/
structure UlUeOk (env : UlEnv) (ue : NrUeInfo) : Prop where
  harq : ∃ a f r, UlHarqInv env.harqRoundMax [] ue.schedCtrl a f r
  stored : ∀ pid, ue.schedCtrl.InUse pid →
    env.ulTda[(ue.schedPusch pid).timeDomainAllocation]? = some (ue.schedPusch pid).tdaInfo

section Dispatch

variable {env : UlEnv} {ues : ℕ → NrUeInfo} {target : UlTarget} {c : UlCandidate}
    {ue ue' : NrUeInfo}
  {sched : SchedPusch}

/-- The PUSCH of a ready candidate occupies the candidate's rectangle, and has an entry of the table
together with its index. -/
theorem UlCandidate.Ready.ulPusch_rectangle (h : c.Ready env ues) (hok : UlUeOk env (ues c.ue))
    (hsize : c.isRetx = true → c.schedPusch.rbSize = c.retxRbSize)
    (hrun : ulPusch env target (ues c.ue) c = some sched) :
    sched.rectangle = c.rectangle ∧
      env.ulTda[sched.timeDomainAllocation]? = some sched.tdaInfo := by
  have hof : sched.bwpStart = c.bwpStart → sched.rbStart = c.schedPusch.rbStart →
      sched.rbSize = c.schedPusch.rbSize → sched.tdaInfo = c.schedPusch.tdaInfo →
      sched.rectangle = c.rectangle := by
    intro hbwp hstart hsize htda
    rw [SchedPusch.rectangle, UlCandidate.rectangle, hbwp, hstart, hsize, htda, h.slbitmap]
  have hbwp := h.bwpStart
  unfold ulPusch at hrun
  dsimp only at hrun
  by_cases hretx : c.isRetx = true
  · rw [if_pos hretx] at hrun
    obtain ⟨a, f, r, hinv⟩ := hok.harq
    have hstored := hok.stored c.retxHarqPid (hinv.inUse_retrans (h.pid hretx))
    unfold applyUlRetransmission at hrun
    dsimp only at hrun
    split_ifs at hrun with hpid hreuse
    · -- the size and the symbols are those of the first transmission
      obtain rfl := Option.some.inj hrun
      have htda : c.schedPusch.tdaInfo = ((ues c.ue).schedPusch c.retxHarqPid).tdaInfo := by
        have hentry := h.tda
        rw [← hreuse, hstored] at hentry
        exact (Option.some.inj hentry).symm
      exact ⟨hof hbwp.symm rfl ((h.refit hretx hreuse).symm.trans (hsize hretx).symm) htda.symm,
        hstored⟩
    · obtain rfl := Option.some.inj hrun
      exact ⟨hof hbwp.symm rfl rfl rfl, h.tda⟩
  · rw [if_neg hretx] at hrun
    obtain rfl := Option.some.inj hrun
    exact ⟨hof hbwp.symm rfl rfl rfl, h.tda⟩

/-- A grant whose PUSCH has an entry of the table together with its index keeps the invariant. -/
theorem UlUeOk.postProcess (h : UlUeOk env ue)
    (hsched : env.ulTda[sched.timeDomainAllocation]? = some sched.tdaInfo)
    (hrun : ue.postProcess env sched = some ue') : UlUeOk env ue' := by
  obtain ⟨a, f, r, hinv⟩ := h.harq
  obtain ⟨harqId, hharq, hrun⟩ := Option.bind_eq_some_iff.mp hrun
  obtain ⟨ctrl, hctrl, hrun⟩ := Option.bind_eq_some_iff.mp hrun
  obtain rfl := Option.some.inj hrun
  refine ⟨(hinv.postProcessUlsch_inv hctrl).2, fun pid hpid => ?_⟩
  obtain ⟨pid', hpid', huse⟩ := inUse_postProcessUlsch hctrl
  obtain rfl : harqId = pid' := Option.some.inj (hharq.symm.trans hpid')
  dsimp only
  by_cases hsame : pid = harqId
  · rw [hsame, Function.update_self]
    exact hsched
  · rw [Function.update_of_ne hsame]
    exact h.stored pid ((huse pid hpid).resolve_left hsame)

/-- Candidates of other UEs are not affected. -/
theorem UlCandidate.Ready.update (h : c.Ready env ues) {i : ℕ} (hi : c.ue ≠ i) (ue : NrUeInfo) :
    c.Ready env (Function.update ues i ue) := by
  refine ⟨?_, ?_, h.tda, h.slbitmap, ?_⟩
  · rw [Function.update_of_ne hi]
    exact h.bwpStart
  · rw [Function.update_of_ne hi]
    exact h.pid
  · rw [Function.update_of_ne hi]
    exact h.refit

/-- Every dispatched PUSCH occupies the rectangle of its candidate, and the UEs stay consistent. -/
theorem dispatchUl_rectangle {cands : List UlCandidate} {vrbMap : ℤ → VrbMap}
    {done : (ℕ → NrUeInfo) × (ℤ → VrbMap) × List (UlCandidate × SchedPusch)}
    (hnodup : (cands.map UlCandidate.ue).Nodup)
    (hready : ∀ c ∈ cands, c.scheduled = true → c.Ready env ues ∧
      (c.isRetx = true → c.schedPusch.rbSize = c.retxRbSize))
    (hok : ∀ i, UlUeOk env (ues i))
    (hrun : dispatchUl env target ues vrbMap cands = some done) :
    (∀ d ∈ done.2.2, d.1 ∈ cands ∧ d.1.scheduled = true ∧ d.2.rectangle = d.1.rectangle) ∧
      ∀ i, UlUeOk env (done.1 i) := by
  induction cands generalizing ues vrbMap done with
  | nil =>
    cases hrun
    exact ⟨fun d hd => absurd hd List.not_mem_nil, hok⟩
  | cons c cands ih =>
    obtain ⟨hnot_mem, hnodup⟩ := List.nodup_cons.mp hnodup
    have htail : ∀ x ∈ cands, x.scheduled = true → x.Ready env ues ∧
        (x.isRetx = true → x.schedPusch.rbSize = x.retxRbSize) :=
      fun x hx => hready x (List.mem_cons_of_mem c hx)
    rw [dispatchUl] at hrun
    cases hs : c.scheduled with
    | false =>
      rw [if_pos (by rw [hs]; rfl)] at hrun
      obtain ⟨hds, hues⟩ := ih hnodup htail hok hrun
      exact ⟨fun d hd => ⟨List.mem_cons_of_mem c (hds d hd).1, (hds d hd).2⟩, hues⟩
    | true =>
      rw [if_neg (by rw [hs]; decide)] at hrun
      obtain ⟨sched, hsched, hrun⟩ := Option.bind_eq_some_iff.mp hrun
      obtain ⟨ue, hue, hrun⟩ := Option.bind_eq_some_iff.mp hrun
      obtain ⟨rest, hrest, hrun⟩ := Option.bind_eq_some_iff.mp hrun
      obtain rfl := Option.some.inj hrun
      obtain ⟨hc, hsize⟩ := hready c List.mem_cons_self hs
      obtain ⟨hrect, htda⟩ := hc.ulPusch_rectangle (hok c.ue) hsize hsched
      have hok' : ∀ i, UlUeOk env (Function.update ues c.ue ue i) := by
        intro i
        by_cases hi : i = c.ue
        · subst hi
          rw [Function.update_self]
          exact (hok c.ue).postProcess htda hue
        · rw [Function.update_of_ne hi]
          exact hok i
      have htail' : ∀ x ∈ cands, x.scheduled = true →
          x.Ready env (Function.update ues c.ue ue) ∧
            (x.isRetx = true → x.schedPusch.rbSize = x.retxRbSize) := by
        intro x hx hxs
        obtain ⟨hx_ready, hx_size⟩ := htail x hx hxs
        have hne : x.ue ≠ c.ue := fun heq => hnot_mem (heq ▸ List.mem_map_of_mem hx)
        exact ⟨hx_ready.update hne ue, hx_size⟩
      obtain ⟨hds, hues⟩ := ih hnodup htail' hok' hrest
      refine ⟨fun d hd => ?_, hues⟩
      rcases List.mem_cons.mp hd with rfl | hd
      · exact ⟨List.mem_cons_self, hs, hrect⟩
      · exact ⟨List.mem_cons_of_mem c (hds d hd).1, (hds d hd).2⟩

end Dispatch

/-! ### The slot and the cell -/

section Cell

variable {env : UlEnv} {target : UlTarget} {maxNumUe : ℕ} {vrbMap : ℤ → VrbMap}

theorem unscheduled_of_mem_ulBeamGroups {cands g : List UlCandidate} (h : UlUnscheduled cands)
    (hg : g ∈ ulBeamGroups cands) : UlUnscheduled g := by
  intro c hc
  have hflat : (ulBeamGroups cands).flatten = cands := List.flatten_splitBy _ cands
  exact h c (hflat ▸ List.mem_flatten.mpr ⟨g, hg, hc⟩)

/-- From the choice of time-domain allocations on, every PUSCH occupies the rectangle of its
candidate. -/
theorem ulAllocateAndDispatch_rectangle {cell : UlCell} {cands : List UlCandidate}
    {done : UlScheduled} (hnodup : (cands.map UlCandidate.ue).Nodup)
    (hcollected : ∀ c ∈ cands, c.Collected cell.ues) (hok : ∀ i, UlUeOk env (cell.ues i))
    (hrun : ulAllocateAndDispatch env target maxNumUe cell vrbMap cands = some done) :
    (∀ d ∈ done.dispatched, d.1.scheduled = true ∧ d.2.rectangle = d.1.rectangle) ∧
      ∀ i, UlUeOk env (done.cell.ues i) := by
  obtain ⟨⟨n, tda⟩, htda, hrun⟩ := Option.bind_eq_some_iff.mp hrun
  dsimp only at hrun
  split_ifs at hrun with hzero
  · obtain rfl := Option.some.inj hrun
    exact ⟨fun d hd => absurd hd List.not_mem_nil, hok⟩
  obtain ⟨⟨s', out⟩, halloc, hrun⟩ := Option.bind_eq_some_iff.mp hrun
  obtain ⟨dispatched, hdispatch, hrun⟩ := Option.bind_eq_some_iff.mp hrun
  obtain rfl := Option.some.inj hrun
  obtain ⟨horigins, hready⟩ := nrUlTdaSelectDefault_ready hcollected htda hzero
  obtain ⟨horigins', hready'⟩ := nrUlMcsSelectDefault_ready hready
  generalize nrUlMcsSelectDefault env cell.ues tda = cands' at halloc horigins' hready'
  have hcollected' : ∀ c ∈ cands', c.Collected cell.ues := by
    refine collected_of_origins ?_ hcollected
    rw [horigins', horigins]
  have hun : UlUnscheduled (env.beamSort cands') := fun c hc =>
    (hcollected' c ((env.beamSort_perm _).mem_iff.mp hc)).unscheduled
  obtain ⟨hframes, hallocated⟩ :=
    allocUlBeams_allocated (fun g hg => unscheduled_of_mem_ulBeamGroups hun hg) halloc
  rw [ulBeamGroups, List.flatten_splitBy] at hframes
  -- the UEs of the candidates are the same through all stages
  have hues : (out.map UlCandidate.ue).Perm (cands.map UlCandidate.ue) := by
    have hout := hframes.map UlCandidate.ue
    rw [List.map_map, List.map_map] at hout
    have hsort := ((env.beamSort_perm cands').map UlCandidate.ue)
    have horigin_ues := congrArg (List.map UlOrigin.ue) (horigins'.trans horigins)
    rw [List.map_map, List.map_map] at horigin_ues
    have hsame : cands'.map UlCandidate.ue = cands.map UlCandidate.ue := horigin_ues
    exact hout.trans (hsame ▸ hsort)
  refine (dispatchUl_rectangle (hues.nodup_iff.mpr hnodup) (fun c hc hs => ?_) hok
    hdispatch).imp (fun hds d hd => (hds d hd).2) id
  obtain ⟨hskipped, hsize⟩ := hallocated c hc hs
  refine ⟨?_, hsize⟩
  obtain ⟨c₀, hc₀, heq⟩ := List.mem_map.mp (hframes.mem_iff.mp (List.mem_map_of_mem hc))
  have hkeep : c₀.skipped = c.skipped := (congrArg UlCandidate.skipped heq :)
  exact (hready' c₀ ((env.beamSort_perm _).mem_iff.mp hc₀) (hkeep.trans hskipped)).of_frame
    heq.symm

/-- In a slot every PUSCH occupies the rectangle of its candidate, and the UEs stay consistent. -/
theorem nrUlSchedule_rectangle {cell : UlCell} {connected : List ℕ} {done : UlScheduled}
    (hnodup : connected.Nodup) (hok : ∀ i, UlUeOk env (cell.ues i))
    (hrun : nrUlSchedule env target maxNumUe cell vrbMap
      (collectUlCandidates env target cell.ues connected) = some done) :
    (∀ d ∈ done.dispatched, d.1.scheduled = true ∧ d.2.rectangle = d.1.rectangle) ∧
      ∀ i, UlUeOk env (done.cell.ues i) := by
  have hnodup : ((collectUlCandidates env target cell.ues connected).map UlCandidate.ue).Nodup :=
    collectUlCandidates_nodup hnodup
  have hcollected : ∀ c ∈ collectUlCandidates env target cell.ues connected,
      c.Collected cell.ues := fun c => collectUlCandidates_collected
  generalize collectUlCandidates env target cell.ues connected = cands at hrun hnodup hcollected
  unfold nrUlSchedule at hrun
  dsimp only at hrun
  -- the stages up to the beams keep the origins
  have horigins : ((nrUlBeamSelectDefault env target cell.beamInfo
      (nrUlRiTpmiSelectDefault cell.ues cands)).2.map UlCandidate.origin).Perm
        (cands.map UlCandidate.origin) := by
    rw [nrUlBeamSelectDefault, origins_ulBeamSelectLoop]
    refine ((env.pfSort_perm _).map _).trans ?_
    rw [nrUlRiTpmiSelectDefault, List.map_map]
    rfl
  generalize nrUlBeamSelectDefault env target cell.beamInfo
    (nrUlRiTpmiSelectDefault cell.ues cands) = beams at hrun horigins
  have hues := horigins.map UlOrigin.ue
  rw [List.map_map, List.map_map] at hues
  split_ifs at hrun
  · obtain rfl := Option.some.inj hrun
    exact ⟨fun d hd => absurd hd List.not_mem_nil, hok⟩
  · obtain rfl := Option.some.inj hrun
    exact ⟨fun d hd => absurd hd List.not_mem_nil, hok⟩
  · have hcollected : ∀ c ∈ beams.2, c.Collected (UlCell.mk cell.ues beams.1).ues :=
      collected_of_origins horigins hcollected
    exact ulAllocateAndDispatch_rectangle (hues.nodup_iff.mpr hnodup) hcollected hok hrun

end Cell

/-- What happens in a cell. -/
inductive UlCellOp
  /-- A UE connects, with processes that were just created. -/
  | connect (i : ℕ) (ue : NrUeInfo)
  /-- A UE is configured, its reports arrive, its timers run: anything but its processes. -/
  | update (i : ℕ) (ue : NrUeInfo)
  /-- Processes are created or reset, or the result of a CRC arrives. -/
  | harq (i : ℕ) (op : UlHarqOp)
  /-- Beams are claimed or released outside the uplink scheduler. -/
  | beams (info : Option NrBeamInfo)
  /-- A target slot is scheduled. -/
  | slot (target : UlTarget) (maxNumUe : ℕ) (vrbMap : ℤ → VrbMap) (connected : List ℕ)

/-- Write a UE. -/
def UlCell.setUe (cell : UlCell) (i : ℕ) (ue : NrUeInfo) : UlCell :=
  { cell with ues := Function.update cell.ues i ue }

def UlCellStep (env : UlEnv) (op : UlCellOp) (cell cell' : UlCell) : Prop :=
  match op with
  | .connect i ue => UlHarqStart ue.schedCtrl ∧ cell' = cell.setUe i ue
  | .update i ue =>
    ue.schedCtrl = (cell.ues i).schedCtrl ∧ ue.schedPusch = (cell.ues i).schedPusch ∧
      cell' = cell.setUe i ue
  | .harq i op =>
    ¬ op.IsGrant ∧ ∃ ctrl, op.run env.harqRoundMax (cell.ues i).schedCtrl = some ctrl ∧
      cell' = cell.setUe i { cell.ues i with schedCtrl := ctrl }
  | .beams info => cell' = { cell with beamInfo := info }
  | .slot target maxNumUe vrbMap connected =>
    connected.Nodup ∧ ∃ done, nrUlSchedule env target maxNumUe cell vrbMap
      (collectUlCandidates env target cell.ues connected) = some done ∧ cell' = done.cell

/-- A cell whose UEs have processes that were just created. -/
def UlCellStart (cell : UlCell) : Prop := ∀ i, UlHarqStart (cell.ues i).schedCtrl

theorem UlUeOk.of_start {env : UlEnv} {ue : NrUeInfo} (h : UlHarqStart ue.schedCtrl) :
    UlUeOk env ue :=
  ⟨h.inv, fun pid hpid => absurd hpid (h.not_inUse pid)⟩

theorem UlCell.ueOk_setUe {env : UlEnv} {cell : UlCell} {i : ℕ} {ue : NrUeInfo}
    (hok : ∀ i, UlUeOk env (cell.ues i)) (hue : UlUeOk env ue) :
    ∀ j, UlUeOk env ((cell.setUe i ue).ues j) := by
  intro j
  change UlUeOk env (Function.update cell.ues i ue j)
  by_cases hj : j = i
  · subst hj
    rw [Function.update_self]
    exact hue
  · rw [Function.update_of_ne hj]
    exact hok j

/-- Everything that happens keeps the UEs consistent. -/
theorem UlCellStep.ueOk {env : UlEnv} {op : UlCellOp} {cell cell' : UlCell}
    (h : UlCellStep env op cell cell') (hok : ∀ i, UlUeOk env (cell.ues i)) :
    ∀ i, UlUeOk env (cell'.ues i) := by
  cases op with
  | connect i ue =>
    obtain ⟨hstart, rfl⟩ := h
    exact UlCell.ueOk_setUe hok (.of_start hstart)
  | update i ue =>
    obtain ⟨hctrl, hpusch, rfl⟩ := h
    refine UlCell.ueOk_setUe hok ⟨?_, ?_⟩
    · rw [hctrl]
      exact (hok i).harq
    · rw [hctrl, hpusch]
      exact (hok i).stored
  | harq i op =>
    obtain ⟨hgrant, ctrl, hrun, rfl⟩ := h
    obtain ⟨a, f, r, hinv⟩ := (hok i).harq
    refine UlCell.ueOk_setUe hok ⟨(op.run_inv hinv hrun).1, fun pid hpid => ?_⟩
    exact (hok i).stored pid (UlHarqOp.inUse_of_run hinv hrun hgrant hpid)
  | beams info =>
    obtain rfl := h
    exact hok
  | slot target maxNumUe vrbMap connected =>
    obtain ⟨hnodup, done, hrun, rfl⟩ := h
    exact (nrUlSchedule_rectangle hnodup hok hrun).2

/-- The allocations of every policy call that comes back, as every one does that has a smallest
grant, are exclusive, whatever the candidates, the maps and the CCE validations; and in every cell
that is reached the PUSCH that are dispatched in a slot occupy the rectangles of their candidates.
-/
theorem ulAllocations_exclusive (env : UlEnv) :
    (∀ (ues : ℕ → NrUeInfo) (target : UlTarget) (maxNumUe : ℕ) (s : UlPolicyState)
        (cands : List UlCandidate), UlUnscheduled cands →
      (0 < env.minGrantPrb →
        (nrUlProportionalFair env ues target maxNumUe s cands).isSome = true) ∧
      ∀ s' cands', nrUlProportionalFair env ues target maxNumUe s cands = some (s', cands') →
        UlExclusive s.vrbMap cands') ∧
    ∀ ops cell, Reach (UlCellStep env) UlCellStart ops cell →
      ∀ (target : UlTarget) (maxNumUe : ℕ) (vrbMap : ℤ → VrbMap) (connected : List ℕ)
        (done : UlScheduled), connected.Nodup →
      nrUlSchedule env target maxNumUe cell vrbMap
        (collectUlCandidates env target cell.ues connected) = some done →
      ∀ d ∈ done.dispatched, d.1.scheduled = true ∧ d.2.rectangle = d.1.rectangle := by
  constructor
  · intro ues target maxNumUe s cands hun
    refine ⟨nrUlProportionalFair_isSome hun, fun s' cands' hrun => ?_⟩
    obtain ⟨items, rfl, hplaced⟩ := nrUlProportionalFair_eq_some hun hrun
    exact hplaced.ulExclusive fun c hc => hun c (List.mem_filter.mp hc).1
  · intro ops cell hreach target maxNumUe vrbMap connected done hnodup hrun
    have hok : ∀ i, UlUeOk env (cell.ues i) :=
      hreach.invariant (fun cell hstart i => .of_start (hstart i))
        fun op cell cell' hok hstep => hstep.ueOk hok
    exact (nrUlSchedule_rectangle hnodup hok hrun).1

/-- Time-domain allocations of two target slots. -/
def twoUlTdas : List NrTdaInfo := [⟨0, 13, 2⟩, ⟨1, 12, 3⟩]

/-- A cell without beams and UEs with one bandwidth part. -/
def beamlessUlCell : UlCell := ⟨fun _ => plainUlUe 0 0, none⟩

/-- The target slot, for UE 0 and a VRB map with nothing taken. -/
def slotForUeZero (k2 : ℕ) (cell : UlCell) : Option UlScheduled :=
  nrUlSchedule (plainUlEnv twoUlTdas) (plainUlTarget k2) 8 cell (fun _ _ => 0)
    (collectUlCandidates (plainUlEnv twoUlTdas) (plainUlTarget k2) cell.ues [0])

/-- The cell after the first transmission of UE 0. -/
def grantedUlCell : UlCell :=
  ((slotForUeZero 2 beamlessUlCell).map UlScheduled.cell).getD beamlessUlCell

/-- The cell after the CRC of that transmission failed. -/
def failedUlCell : UlCell :=
  grantedUlCell.setUe 0 { grantedUlCell.ues 0 with
    schedCtrl := (handleNrUlHarq 4 false 0 true (grantedUlCell.ues 0).schedCtrl).getD .zero }

theorem eq_some_getD {α : Type*} {x : Option α} (h : x.isSome = true) (d : α) :
    x = some (x.getD d) := by
  obtain ⟨a, rfl⟩ := Option.isSome_iff_exists.mp h
  rfl

/-- A transmission fails and is sent again with another time-domain allocation. -/
theorem ulAllocations_exclusive_retransmission :
    ∃ done, Reach (UlCellStep (plainUlEnv twoUlTdas)) UlCellStart
        [.slot (plainUlTarget 2) 8 (fun _ _ => 0) [0], .harq 0 (.crc false 0 true)] failedUlCell ∧
      slotForUeZero 3 failedUlCell = some done ∧
      done.dispatched.map (fun d => (d.1.isRetx, d.2.timeDomainAllocation)) = [(true, 1)] ∧
      ∀ d ∈ done.dispatched, d.1.scheduled = true ∧ d.2.rectangle = d.1.rectangle := by
  obtain ⟨first, hfirst⟩ : ∃ first, slotForUeZero 2 beamlessUlCell = some first :=
    Option.isSome_iff_exists.mp rfl
  have hcell : grantedUlCell = first.cell := by rw [grantedUlCell, hfirst]; rfl
  have hstart : Reach (UlCellStep (plainUlEnv twoUlTdas)) UlCellStart [] beamlessUlCell :=
    .start fun _ => ⟨false, false, rfl⟩
  have hslot : Reach (UlCellStep (plainUlEnv twoUlTdas)) UlCellStart
      [.slot (plainUlTarget 2) 8 (fun _ _ => 0) [0]] grantedUlCell :=
    hstart.step ⟨List.nodup_singleton 0, first, hfirst, hcell⟩
  have hcrc : (handleNrUlHarq 4 false 0 true (grantedUlCell.ues 0).schedCtrl).isSome = true := rfl
  have hreach : Reach (UlCellStep (plainUlEnv twoUlTdas)) UlCellStart
      [.slot (plainUlTarget 2) 8 (fun _ _ => 0) [0], .harq 0 (.crc false 0 true)] failedUlCell :=
    hslot.step ⟨id, _, eq_some_getD hcrc .zero, rfl⟩
  obtain ⟨done, hdone⟩ : ∃ done, slotForUeZero 3 failedUlCell = some done :=
    Option.isSome_iff_exists.mp rfl
  have hretx : (slotForUeZero 3 failedUlCell).map (fun done => done.dispatched.map fun d =>
      (d.1.isRetx, d.2.timeDomainAllocation)) = some [(true, 1)] := rfl
  rw [hdone, Option.map_some] at hretx
  exact ⟨done, hreach, hdone, Option.some.inj hretx,
    (ulAllocations_exclusive (plainUlEnv twoUlTdas)).2 _ _ hreach _ _ _ _ _
      (List.nodup_singleton 0) hdone⟩

end LlmHric.Mac
