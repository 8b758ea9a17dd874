import LlmHric.Rrc.DrbAssignment
import Mathlib.Algebra.GroupWithZero.Nat

/-! When a session is set up its flows are assigned one after the other, which over the loads of the
session's DRBs is first fit. So the number of DRBs that a request opens is known beforehand, and the
request is carried out exactly when that many are left and the numbers of its flows are 5QIs. -/

namespace LlmHric.Rrc

open Checked FirstFit

variable {drbs : List Drb} {sid : ℕ} {flows pre post visited rest : List RrcQos} {q : RrcQos}
  {a : Assignment}

/-! ### One session -/

/-- The flows of a session and the DRBs of the UE fit together. -/
structure FlowsOk (drbs : List Drb) (sid : ℕ) (flows : List RrcQos) : Prop where
  acceptable : ∀ q ∈ flows, Acceptable q.qos.characteristics
  inRange : ∀ q ∈ flows, q.drbId ≠ 0 → FiveqiInRange q.qos.characteristics
  mapped : ∀ q ∈ flows, q.drbId ≠ 0 → ⟨q.drbId, sid⟩ ∈ drbs
  load_ok : ∀ d, d ≠ 0 → (load flows d).Ok

theorem FlowsOk.drbsCounted (h : FlowsOk drbs sid flows) (hids : DrbIdsOk drbs) :
    DrbsCounted drbs sid flows := by
  intro drb hdrb _
  have hne : drb.drbId ≠ 0 := Nat.ne_of_gt (hids.pos drb hdrb)
  exact ⟨fun q hq hd => ⟨h.acceptable q hq, h.inRange q hq (hd ▸ hne)⟩, h.load_ok _ hne⟩

theorem FlowsOk.sublist {flows' : List RrcQos} (h : FlowsOk drbs sid flows)
    (hsub : flows'.Sublist flows) : FlowsOk drbs sid flows' where
  acceptable := fun q hq => h.acceptable q (hsub.subset hq)
  inRange := fun q hq => h.inRange q (hsub.subset hq)
  mapped := fun q hq => h.mapped q (hsub.subset hq)
  load_ok := fun d hd => (h.load_ok d hd).of_sublist hsub

theorem FlowsOk.mono {drbs' : List Drb} (h : FlowsOk drbs sid flows)
    (hsub : ∀ drb ∈ drbs, drb.pdusessionId = sid → drb ∈ drbs') : FlowsOk drbs' sid flows :=
  { h with mapped := fun q hq hd => hsub _ (h.mapped q hq hd) rfl }

/-- Flows none of which is assigned. -/
theorem flowsOk_of_unassigned (hacc : ∀ q ∈ flows, Acceptable q.qos.characteristics)
    (h0 : ∀ q ∈ flows, q.drbId = 0) : FlowsOk drbs sid flows where
  acceptable := hacc
  inRange := fun q hq hd => absurd (h0 q hq) hd
  mapped := fun q hq hd => absurd (h0 q hq) hd
  load_ok := fun d hd => by
    rw [load_eq_empty fun q hq => (h0 q hq).trans_ne hd.symm]
    exact Load.ok_empty

/-- The loads of the DRBs of a session, in order. -/
def loads (drbs : List Drb) (sid : ℕ) (flows : List RrcQos) : List Load :=
  (drbs.filter fun drb => drb.pdusessionId = sid).map fun drb => load flows drb.drbId

/-- An assignment by first fit over loads. -/
abbrev placeFlow : List Load → FlowKind → List Load := place Load.fits Load.put Load.empty.put

abbrev packFlows : List Load → List FlowKind → List Load := pack Load.fits Load.put Load.empty.put

theorem newBin_loads (k : FlowKind) : newBin Load.fits (loads drbs sid flows) k =
    if (suitableDrb drbs sid flows k).isSome then 0 else 1 := newBin_map

/-- A new identifier is not that of a flow. -/
theorem FlowsOk.load_eq_empty {id : ℕ} (h : FlowsOk drbs sid flows) (hpos : 0 < id)
    (hid : id ∉ drbs.map Drb.drbId) : load flows id = .empty := by
  apply Rrc.load_eq_empty
  rintro q hq rfl
  exact hid (List.mem_map_of_mem (h.mapped q hq (Nat.ne_of_gt hpos)))

/-- What an assignment changes. -/
structure Assigned (drbs : List Drb) (sid : ℕ) (flows : List RrcQos) (k : FlowKind)
    (a : Assignment) : Prop where
  pos : 0 < a.drbId
  mem : ⟨a.drbId, sid⟩ ∈ a.drbs
  ids : DrbIdsOk a.drbs
  isPrefix : drbs <+: a.drbs
  new : ∀ drb ∈ a.drbs, drb ∈ drbs ∨ drb.pdusessionId = sid
  length : a.drbs.length = drbs.length + newBin Load.fits (loads drbs sid flows) k
  load_ok : load flows a.drbId = .empty ∨ (load flows a.drbId).fits k = true

theorem assigned {k : FlowKind} (hok : FlowsOk drbs sid flows) (hids : DrbIdsOk drbs)
    (ha : assignment drbs sid flows k = some a) : Assigned drbs sid flows k a := by
  unfold assignment at ha
  cases hdrb : suitableDrb drbs sid flows k with
  | some drb =>
    rw [hdrb] at ha
    obtain rfl := Option.some.inj ha
    obtain ⟨hmem, hsid, hfits⟩ := mem_of_suitableDrb hdrb
    have hnew : newBin Load.fits (loads drbs sid flows) k = 0 := by rw [newBin_loads, hdrb]; rfl
    exact {
      pos := hids.pos drb hmem
      mem := by rw [← hsid]; exact hmem
      ids := hids
      isPrefix := List.prefix_refl _
      new := fun _ he => .inl he
      length := by rw [hnew]; rfl
      load_ok := .inr hfits }
  | none =>
    rw [hdrb] at ha
    obtain ⟨id, hid, rfl⟩ := Option.map_eq_some_iff.mp ha
    obtain ⟨hpos, -, hfree⟩ := freeDrbId_spec hid
    have hnew : newBin Load.fits (loads drbs sid flows) k = 1 := by rw [newBin_loads, hdrb]; rfl
    exact {
      pos := hpos
      mem := List.mem_append_right _ (List.mem_singleton_self _)
      ids := hids.concat hid
      isPrefix := List.prefix_append _ _
      new := fun drb hdrb => by
        rcases List.mem_append.mp hdrb with hdrb | hdrb
        · exact .inl hdrb
        · exact .inr (List.mem_singleton.mp hdrb ▸ rfl)
      length := by rw [hnew, List.length_append, List.length_singleton]
      load_ok := .inl (hok.load_eq_empty hpos hfree) }

/-- There is an assignment exactly as long as a DRB is left for the flow. -/
theorem isSome_assignment_iff {k : FlowKind} (hids : DrbIdsOk drbs) :
    (∃ a, assignment drbs sid flows k = some a) ↔
      drbs.length + newBin Load.fits (loads drbs sid flows) k ≤ maxDrbsPerUe := by
  unfold assignment
  cases hdrb : suitableDrb drbs sid flows k with
  | some drb =>
    have hnew : newBin Load.fits (loads drbs sid flows) k = 0 := by rw [newBin_loads, hdrb]; rfl
    rw [hnew]
    exact ⟨fun _ => hids.length_le, fun _ => ⟨_, rfl⟩⟩
  | none =>
    have hnew : newBin Load.fits (loads drbs sid flows) k = 1 := by rw [newBin_loads, hdrb]; rfl
    rw [hnew, Nat.add_one_le_iff, ← isSome_freeDrbId_iff hids]
    cases freeDrbId drbs <;> simp

/-- One assignment keeps the flows of the session in order, whether the flow was assigned or
not. -/
theorem FlowsOk.assign (hok : FlowsOk drbs sid (pre ++ q :: post)) (hids : DrbIdsOk drbs)
    (hq : FiveqiInRange q.qos.characteristics)
    (ha : assignment drbs sid (pre ++ q :: post) q.kind = some a) :
    FlowsOk a.drbs sid (pre ++ { q with drbId := a.drbId } :: post) := by
  have hassigned := assigned hok hids ha
  have hmem : ∀ r ∈ pre ++ { q with drbId := a.drbId } :: post,
      r = { q with drbId := a.drbId } ∨ r ∈ pre ++ q :: post := by
    intro r hr
    simp only [List.mem_append, List.mem_cons] at hr ⊢
    tauto
  have hqmem : q ∈ pre ++ q :: post := List.mem_append_right _ (List.mem_cons_self ..)
  refine ⟨?_, ?_, ?_, ?_⟩
  · intro r hr
    rcases hmem r hr with rfl | hr
    · exact hok.acceptable q hqmem
    · exact hok.acceptable r hr
  · intro r hr hd
    rcases hmem r hr with rfl | hr
    · exact hq
    · exact hok.inRange r hr hd
  · intro r hr hd
    rcases hmem r hr with rfl | hr
    · exact hassigned.mem
    · exact hassigned.isPrefix.subset (hok.mapped r hr hd)
  · intro d hd
    have hbefore := hok.load_ok d hd
    have hrest : (load (pre ++ post) d).Ok :=
      hbefore.of_sublist ((List.sublist_cons_self q post).append_left pre)
    rw [load_insert]
    by_cases had : a.drbId = d
    swap
    · rw [if_neg had]
      exact hrest
    subst had
    rw [if_pos rfl]
    have hload := hassigned.load_ok
    rw [load_insert] at hbefore hload
    by_cases hqd : q.drbId = a.drbId
    · rw [if_pos hqd] at hbefore
      exact hbefore
    · rw [if_neg hqd] at hload
      rcases hload with hempty | hfits
      · rw [hempty]
        exact Load.ok_put_empty _
      · exact hrest.put hfits

/-- Over loads, the assignment of an unassigned flow is first fit. -/
theorem loads_assign (hok : FlowsOk drbs sid (pre ++ q :: post)) (hids : DrbIdsOk drbs)
    (hq : q.drbId = 0) (ha : assignment drbs sid (pre ++ q :: post) q.kind = some a) :
    loads a.drbs sid (pre ++ { q with drbId := a.drbId } :: post) =
      placeFlow (loads drbs sid (pre ++ q :: post)) q.kind := by
  have hpos := (assigned hok hids ha).pos
  have hafter : ∀ d, d ≠ 0 → load (pre ++ { q with drbId := a.drbId } :: post) d =
      if a.drbId = d then (load (pre ++ q :: post) d).put q.kind else load
        (pre ++ q :: post) d := by
    intro d hd
    have hbefore : load (pre ++ q :: post) d = load (pre ++ post) d := by
      rw [load_insert, if_neg (hq.trans_ne hd.symm)]
    rw [load_insert, hbefore]
    rfl
  have hne : ∀ drb ∈ drbs, drb.drbId ≠ 0 := fun drb hdrb => Nat.ne_of_gt (hids.pos drb hdrb)
  unfold assignment at ha
  cases hdrb : suitableDrb drbs sid (pre ++ q :: post) q.kind with
  | some drb =>
    rw [hdrb] at ha
    obtain rfl := Option.some.inj ha
    have hmem := (mem_of_suitableDrb hdrb).1
    have hnodup : (drbs.filter fun drb => drb.pdusessionId = sid).Nodup :=
      (List.Nodup.of_map _ hids.nodup).filter _
    apply place_map_of_find? hnodup hdrb
    · exact (hafter _ (hne drb hmem)).trans (if_pos rfl)
    · intro e he hed
      have hemem := (List.mem_filter.mp he).1
      rw [hafter _ (hne e hemem), if_neg]
      intro heq
      exact hed (List.inj_on_of_nodup_map hids.nodup hemem hmem heq.symm)
  | none =>
    rw [hdrb] at ha
    obtain ⟨id, hid, rfl⟩ := Option.map_eq_some_iff.mp ha
    obtain ⟨-, -, hfree⟩ := freeDrbId_spec hid
    have hnew : load (pre ++ { q with drbId := id } :: post) id = Load.empty.put q.kind := by
      rw [hafter id (Nat.ne_of_gt hpos), if_pos rfl, hok.load_eq_empty hpos hfree]
    have hplace : placeFlow (loads drbs sid (pre ++ q :: post)) q.kind =
        loads drbs sid (pre ++ q :: post) ++ [Load.empty.put q.kind] :=
      place_map_of_find?_eq_none hdrb
    rw [hplace]
    unfold loads
    rw [List.filter_append, List.map_append]
    congr 1
    · apply List.map_congr_left
      intro e he
      have hemem := (List.mem_filter.mp he).1
      rw [hafter _ (hne e hemem), if_neg]
      rintro rfl
      exact hfree (List.mem_map_of_mem hemem)
    · simp [hnew]

/-! ### The loop over the flows of a session -/

/-- Session identifiers of the source. -/
def SessionIdOk (sid : ℕ) : Prop := 0 < sid ∧ sid ≤ nrMaxNbPduSessions

instance (sid : ℕ) : Decidable (SessionIdOk sid) := inferInstanceAs (Decidable (_ ∧ _))

theorem sessionIdOk_one : SessionIdOk 1 := by decide

theorem eligibleForDefault_eq {c : QosCharacteristics} (hc : Acceptable c)
    (hn : FiveqiInRange c) : ∃ b, eligibleForDefault c = .done b := by
  unfold eligibleForDefault
  rw [getQosFiveqi_eq hc hn, Outcome.done_bind]
  match c, hc, hn with
  | .nonDynamic n, _, hn =>
    have hle : n ≤ maxFiveqi := hn n rfl
    simp [number, ne_noFiveqi hle, hle, nrRrcIsNonGbrFiveqi, is5qiStandardized_eq hle]
  | .dynamic (some n) .., _, hn =>
    have hle : n ≤ maxFiveqi := hn n rfl
    simp [number, ne_noFiveqi hle, hle]
  | .dynamic none .., _, _ => exact ⟨false, rfl⟩

/-- The number of DRBs that flows open by first fit. -/
def opened (bins : List Load) (ks : List FlowKind) : ℕ := (packFlows bins ks).length - bins.length

theorem opened_cons (bins : List Load) (k : FlowKind) (ks : List FlowKind) :
    opened bins (k :: ks) = newBin Load.fits bins k + opened (placeFlow bins k) ks := by
  have hone : (placeFlow bins k).length = bins.length + newBin Load.fits bins k := length_place
  have hle : (placeFlow bins k).length ≤ (packFlows (placeFlow bins k) ks).length :=
    length_le_length_pack
  simp only [opened, packFlows, placeFlow, pack_cons] at hone hle ⊢
  omega

/-- What the loop leaves behind. -/
structure FlowsAssigned (drbs : List Drb) (sid : ℕ) (flows : List RrcQos) (drbs' : List Drb)
    (flows' : List RrcQos) : Prop where
  ok : FlowsOk drbs' sid flows'
  ids : DrbIdsOk drbs'
  isPrefix : drbs <+: drbs'
  new : ∀ drb ∈ drbs', drb ∈ drbs ∨ drb.pdusessionId = sid
  same : flows'.map RrcQos.qos = flows.map RrcQos.qos

/-- The DRBs suffice for flows still to be visited, and their numbers are 5QIs. -/
def Suffices (drbs : List Drb) (sid : ℕ) (flows rest : List RrcQos) : Prop :=
  drbs.length + opened (loads drbs sid flows) (rest.map RrcQos.kind) ≤ maxDrbsPerUe ∧
    ∀ q ∈ rest, FiveqiInRange q.qos.characteristics

theorem suffices_cons_iff : Suffices drbs sid flows (q :: rest) ↔
    FiveqiInRange q.qos.characteristics ∧
      drbs.length + (newBin Load.fits (loads drbs sid flows) q.kind +
        opened (placeFlow (loads drbs sid flows) q.kind) (rest.map RrcQos.kind)) ≤ maxDrbsPerUe ∧
      ∀ r ∈ rest, FiveqiInRange r.qos.characteristics := by
  rw [Suffices, List.map_cons, opened_cons, List.forall_mem_cons]
  tauto

/-- After one assignment the rest needs what it needed before. -/
theorem suffices_assign_iff (hok : FlowsOk drbs sid (pre ++ q :: rest)) (hids : DrbIdsOk drbs)
    (hq : q.drbId = 0) (hn : FiveqiInRange q.qos.characteristics)
    (ha : assignment drbs sid (pre ++ q :: rest) q.kind = some a) :
    Suffices a.drbs sid (pre ++ { q with drbId := a.drbId } :: rest) rest ↔
      Suffices drbs sid (pre ++ q :: rest) (q :: rest) := by
  rw [suffices_cons_iff, Suffices, loads_assign hok hids hq ha, (assigned hok hids ha).length,
    Nat.add_assoc]
  simp only [hn, true_and]

/-- The loop ends well if the DRBs suffice, with every flow assigned. -/
theorem assignFlows_of_suffices (default : Option ℕ) (hsid : SessionIdOk sid)
    (hids : DrbIdsOk drbs) (hok : FlowsOk drbs sid (visited ++ rest))
    (h0 : ∀ q ∈ rest, q.drbId = 0) (hvisited : ∀ q ∈ visited, q.drbId ≠ 0)
    (hsuff : Suffices drbs sid (visited ++ rest) rest) :
    ∃ drbs' flows' default', assignFlows sid drbs visited default rest =
        .done (drbs', flows', default') ∧
      drbs'.length =
        drbs.length + opened (loads drbs sid (visited ++ rest)) (rest.map RrcQos.kind) ∧
      FlowsAssigned drbs sid (visited ++ rest) drbs' flows' ∧ ∀ q ∈ flows', q.drbId ≠ 0 := by
  induction rest generalizing drbs visited default with
  | nil =>
    rw [List.append_nil] at hok ⊢
    exact ⟨drbs, visited, default, rfl, by simp [opened],
      ⟨hok, hids, List.prefix_refl _, fun _ h => .inl h, rfl⟩, hvisited⟩
  | cons q rest ih =>
    rw [List.forall_mem_cons] at h0
    obtain ⟨hn, hroom, -⟩ := suffices_cons_iff.mp hsuff
    have hacc := hok.acceptable q (List.mem_append_right _ (List.mem_cons_self ..))
    have hex : ∃ a, assignment drbs sid (visited ++ q :: rest) q.kind = some a :=
      (isSome_assignment_iff hids).mpr (by omega)
    obtain ⟨a, ha⟩ := hex
    have hdone : nrRrcAssignDrbToQosFlow drbs sid (visited ++ q :: rest) q.qos.characteristics =
        .done a := by
      rw [nrRrcAssignDrbToQosFlow_eq hsid hids hacc hn (hok.drbsCounted hids), ← RrcQos.kind, ha]
    obtain ⟨b, hb⟩ := eligibleForDefault_eq hacc hn
    have hassigned := assigned hok hids ha
    have hsplit : visited ++ { q with drbId := a.drbId } :: rest =
        (visited ++ [{ q with drbId := a.drbId }]) ++ rest := List.append_cons ..
    have hok' := hok.assign hids hn ha
    have hsuff' := (suffices_assign_iff hok hids h0.1 hn ha).mpr hsuff
    rw [hsplit] at hok' hsuff'
    have hvisited' : ∀ r ∈ visited ++ [{ q with drbId := a.drbId }], r.drbId ≠ 0 := by
      intro r hr
      rcases List.mem_append.mp hr with hr | hr
      · exact hvisited r hr
      · exact List.mem_singleton.mp hr ▸ Nat.ne_of_gt hassigned.pos
    obtain ⟨drbs', flows', default', hrun, hlen, hafter, hall⟩ :=
      ih (if b ∧ default = none then some a.drbId else default) hassigned.ids hok' h0.2
        hvisited' hsuff'
    refine ⟨drbs', flows', default', ?_, ?_, ?_, hall⟩
    · rw [assignFlows, hdone, Outcome.done_bind, hb, Outcome.done_bind]
      exact hrun
    · rw [hlen, ← hsplit, loads_assign hok hids h0.1 ha, hassigned.length, List.map_cons,
        opened_cons, Nat.add_assoc]
    · refine ⟨hafter.ok, hafter.ids, hassigned.isPrefix.trans hafter.isPrefix, ?_, ?_⟩
      · intro drb hdrb
        rcases hafter.new drb hdrb with hdrb | hdrb
        · exact hassigned.new drb hdrb
        · exact .inr hdrb
      · rw [hafter.same]
        simp

/-- The loop is aborted if they do not. -/
theorem assignFlows_of_not_suffices (default : Option ℕ) (hsid : SessionIdOk sid)
    (hids : DrbIdsOk drbs) (hok : FlowsOk drbs sid (visited ++ rest))
    (h0 : ∀ q ∈ rest, q.drbId = 0) (hsuff : ¬ Suffices drbs sid (visited ++ rest) rest) :
    assignFlows sid drbs visited default rest = .fault .assertion := by
  induction rest generalizing drbs visited default with
  | nil => exact absurd ⟨by simpa [opened] using hids.length_le, by simp⟩ hsuff
  | cons q rest ih =>
    rw [List.forall_mem_cons] at h0
    have hacc := hok.acceptable q (List.mem_append_right _ (List.mem_cons_self ..))
    rw [assignFlows]
    by_cases hn : FiveqiInRange q.qos.characteristics
    swap
    · rw [nrRrcAssignDrbToQosFlow_eq_fault hacc hn, Outcome.fault_bind]
    rw [nrRrcAssignDrbToQosFlow_eq hsid hids hacc hn (hok.drbsCounted hids), ← RrcQos.kind]
    cases ha : assignment drbs sid (visited ++ q :: rest) q.kind with
    | none => rfl
    | some a =>
      have hsplit : visited ++ { q with drbId := a.drbId } :: rest =
          (visited ++ [{ q with drbId := a.drbId }]) ++ rest := List.append_cons ..
      obtain ⟨b, hb⟩ := eligibleForDefault_eq hacc hn
      have hok' := hok.assign hids hn ha
      have hsuff' : ¬ Suffices a.drbs sid (visited ++ { q with drbId := a.drbId } :: rest) rest :=
        fun h => hsuff ((suffices_assign_iff hok hids h0.1 hn ha).mp h)
      rw [hsplit] at hok' hsuff'
      dsimp only
      rw [Outcome.done_bind, hb, Outcome.done_bind]
      exact ih _ (assigned hok hids ha).ids hok' h0.2 hsuff'

/-! ### Flows built for a session -/

theorem acceptable_of_checkFiveqi {c : QosCharacteristics} (h : checkFiveqi c = .done true) :
    Acceptable c := by
  match c, h with
  | .nonDynamic n, h =>
    simp only [checkFiveqi, is5qiStandardized, Outcome.pure_eq, Outcome.bind_eq_done_iff,
      Outcome.done.injEq, decide_eq_true_eq] at h
    obtain ⟨-, -, hs⟩ := h
    exact hs
  | .dynamic .., _ => trivial

theorem checkFiveqi_eq {c : QosCharacteristics} (h : FiveqiInRange c) :
    ∃ b, checkFiveqi c = .done b := by
  match c, h with
  | .nonDynamic n, h => exact ⟨_, is5qiStandardized_eq (h n rfl)⟩
  | .dynamic .., _ => exact ⟨true, rfl⟩

/-- A flow is appended unassigned, or the list is left as it is and a flow in it is returned at
most. -/
theorem addQos_cases {inQos : QosParameter} {qos : List RrcQos} {r : Option RrcQos}
    (h : addQos flows inQos = .done (qos, r)) :
    qos = flows ∧ (r = none ∨ ∃ q, r = some q ∧ findQos flows q.qos.qfi = some q) ∨
      qos = flows ++ [⟨0, inQos⟩] ∧ r = some ⟨0, inQos⟩ ∧ Acceptable inQos.characteristics ∧
        findQos flows inQos.qfi = none := by
  unfold addQos at h
  split_ifs at h
  · obtain ⟨rfl, rfl⟩ := Prod.mk.inj (Outcome.done.inj h)
    exact .inl ⟨rfl, .inl rfl⟩
  · obtain ⟨rfl, rfl⟩ := Prod.mk.inj (Outcome.done.inj h)
    exact .inl ⟨rfl, .inl rfl⟩
  · cases hfind : findQos flows inQos.qfi with
    | some q =>
      rw [hfind] at h
      obtain ⟨rfl, rfl⟩ := Prod.mk.inj (Outcome.done.inj h)
      have hqfi : (q.qos.qfi : ℤ) = inQos.qfi := of_decide_eq_true (List.find?_some hfind :)
      exact .inl ⟨rfl, .inr ⟨q, rfl, by rw [hqfi]; exact hfind⟩⟩
    | none =>
      rw [hfind] at h
      obtain ⟨b, hb, h⟩ := Outcome.bind_eq_done_iff.mp h
      cases b with
      | false =>
        obtain ⟨rfl, rfl⟩ := Prod.mk.inj (Outcome.done.inj h)
        exact .inl ⟨rfl, .inl rfl⟩
      | true =>
        obtain ⟨rfl, rfl⟩ := Prod.mk.inj (Outcome.done.inj h)
        exact .inr ⟨rfl, rfl, acceptable_of_checkFiveqi hb, rfl⟩

theorem addQos_eq_done (flows : List RrcQos) {inQos : QosParameter}
    (h : FiveqiInRange inQos.characteristics) : ∃ r, addQos flows inQos = .done r := by
  obtain ⟨b, hb⟩ := checkFiveqi_eq h
  unfold addQos
  split_ifs
  · exact ⟨_, rfl⟩
  · exact ⟨_, rfl⟩
  · cases findQos flows inQos.qfi with
    | some q => exact ⟨_, rfl⟩
    | none =>
      dsimp only
      rw [hb, Outcome.done_bind]
      cases b <;> exact ⟨_, rfl⟩

/-- Flows built from nothing are unassigned and acceptable. -/
theorem addQosFlows_spec {inQos : List QosParameter} {qos : List RrcQos}
    (h : addQosFlows flows inQos = .done qos)
    (h0 : ∀ q ∈ flows, q.drbId = 0 ∧ Acceptable q.qos.characteristics) :
    ∀ q ∈ qos, q.drbId = 0 ∧ Acceptable q.qos.characteristics := by
  induction inQos generalizing flows with
  | nil =>
    obtain rfl := Outcome.done.inj h
    exact h0
  | cons q inQos ih =>
    rw [addQosFlows, List.foldlM_cons] at h
    obtain ⟨flows', hadd, h⟩ := Outcome.bind_eq_done_iff.mp h
    obtain ⟨⟨qos', r⟩, hq, hret⟩ := Outcome.bind_eq_done_iff.mp hadd
    obtain rfl : qos' = flows' := Outcome.done.inj hret
    apply ih h
    rcases addQos_cases hq with ⟨rfl, -⟩ | ⟨rfl, -, hacc, -⟩
    · exact h0
    · intro r hr
      rcases List.mem_append.mp hr with hr | hr
      · exact h0 r hr
      · exact List.mem_singleton.mp hr ▸ ⟨rfl, hacc⟩

/-- A session to set up; its flows are built by `addQos`. -/
structure SetupSession where
  pdusessionId : ℕ
  idOk : SessionIdOk pdusessionId
  qos : List RrcQos
  built : ∃ inQos, addQosFlows [] inQos = .done qos

namespace SetupSession

def toPduSession (s : SetupSession) : PduSession :=
  { pdusessionId := s.pdusessionId, qos := s.qos, sdapConfig := ⟨false, false, 0⟩ }

theorem unassigned (s : SetupSession) : ∀ q ∈ s.qos, q.drbId = 0 := by
  obtain ⟨inQos, h⟩ := s.built
  exact fun q hq => (addQosFlows_spec h (by simp) q hq).1

theorem acceptable (s : SetupSession) : ∀ q ∈ s.qos, Acceptable q.qos.characteristics := by
  obtain ⟨inQos, h⟩ := s.built
  exact fun q hq => (addQosFlows_spec h (by simp) q hq).2

/-- The DRBs that a new session opens. -/
def drbsNeeded (s : SetupSession) : ℕ := opened [] (s.qos.map RrcQos.kind)

/-- Every number of the session is a 5QI. -/
def FiveqisInRange (s : SetupSession) : Prop :=
  ∀ q ∈ s.qos, FiveqiInRange q.qos.characteristics

instance (s : SetupSession) : Decidable s.FiveqisInRange := by
  unfold FiveqisInRange
  infer_instance

end SetupSession

/-! ### Sessions of a UE -/

/-- Every DRB has an identifier of its own and belongs to a stored session. -/
structure DrbsOwned (ue : RrcUe) : Prop where
  ids : DrbIdsOk ue.drbs
  owner : ∀ drb ∈ ue.drbs, drb.pdusessionId ∈ ue.pduSessions.map PduSession.pdusessionId

/-- The sessions of a UE, their flows and its DRBs fit together. -/
structure BearersOk (ue : RrcUe) : Prop extends DrbsOwned ue where
  nodup : (ue.pduSessions.map PduSession.pdusessionId).Nodup
  idOk : ∀ s ∈ ue.pduSessions, SessionIdOk s.pdusessionId
  flowsOk : ∀ s ∈ ue.pduSessions, FlowsOk ue.drbs s.pdusessionId s.qos
  inRange : ∀ s ∈ ue.pduSessions, ∀ q ∈ s.qos, FiveqiInRange q.qos.characteristics

variable {ue ue' : RrcUe} {enableSdap : Bool}

/-- A new session has no DRB yet. -/
theorem DrbsOwned.loads_eq_nil (h : DrbsOwned ue)
    (hsid : sid ∉ ue.pduSessions.map PduSession.pdusessionId) : loads ue.drbs sid flows = [] := by
  rw [loads, List.map_eq_nil_iff, List.filter_eq_nil_iff]
  intro drb hdrb hsame
  exact hsid (of_decide_eq_true hsame ▸ h.owner drb hdrb)

theorem findPduSession_isSome_iff {sessions : List PduSession} :
    (findPduSession sessions sid).isSome ↔ sid ∈ sessions.map PduSession.pdusessionId := by
  simp [findPduSession, List.find?_isSome]

theorem addPduSession_eq {sessions : List PduSession} {s : PduSession} :
    addPduSession sessions s =
      if (sessions.map PduSession.pdusessionId).length = nrMaxNbPduSessions ∨
        s.pdusessionId ∈ sessions.map PduSession.pdusessionId then none
      else some (sessions ++ [s]) := by
  rw [addPduSession, List.length_map]
  by_cases hlen : sessions.length = nrMaxNbPduSessions
  · simp [hlen]
  · simp only [hlen, if_false, false_or, findPduSession_isSome_iff]

/-- What the loop over the sessions of a request leaves behind. -/
structure BearersAdded (ue ue' : RrcUe) (needed : ℕ) : Prop where
  owned : DrbsOwned ue'
  sessions : ue.pduSessions <+: ue'.pduSessions
  drbs : ue.drbs <+: ue'.drbs
  length : ue'.drbs.length = ue.drbs.length + needed
  assigned : ∀ s ∈ ue'.pduSessions, s ∈ ue.pduSessions ∨ ∀ q ∈ s.qos, q.drbId ≠ 0
  ok : BearersOk ue → BearersOk ue'

theorem BearersAdded.trans {ue'' : RrcUe} {n m : ℕ} (h : BearersAdded ue ue' n)
    (h' : BearersAdded ue' ue'' m) : BearersAdded ue ue'' (n + m) where
  owned := h'.owned
  sessions := h.sessions.trans h'.sessions
  drbs := h.drbs.trans h'.drbs
  length := by rw [h'.length, h.length, Nat.add_assoc]
  assigned := by
    intro s hs
    rcases h'.assigned s hs with hs | hs
    · exact h.assigned s hs
    · exact .inr hs
  ok := fun hok => h'.ok (h.ok hok)

/-- A session is left out when it comes after 256 others or its identifier is taken. -/
def LeftOut (ids : List ℕ) (s : SetupSession) : Prop :=
  ids.length = nrMaxNbPduSessions ∨ s.pdusessionId ∈ ids

instance (ids : List ℕ) (s : SetupSession) : Decidable (LeftOut ids s) :=
  inferInstanceAs (Decidable (_ ∨ _))

/-- The sessions of a request that are added. -/
def accepted : List ℕ → List SetupSession → List SetupSession
  | _, [] => []
  | ids, s :: sessions =>
    if LeftOut ids s then accepted ids sessions
    else s :: accepted (ids ++ [s.pdusessionId]) sessions

theorem mem_of_mem_accepted {ids : List ℕ} {sessions : List SetupSession} {s : SetupSession}
    (h : s ∈ accepted ids sessions) : s ∈ sessions := by
  induction sessions generalizing ids with
  | nil => cases h
  | cons t sessions ih =>
    rw [accepted] at h
    split_ifs at h
    · exact List.mem_cons_of_mem _ (ih h)
    · rcases List.mem_cons.mp h with rfl | h
      · exact List.mem_cons_self ..
      · exact List.mem_cons_of_mem _ (ih h)

theorem addBearersOfSession_eq {s : SetupSession} :
    addBearersOfSession enableSdap ue s.toPduSession =
      if LeftOut (ue.pduSessions.map PduSession.pdusessionId) s then .done ue
      else do
        let (drbs, qos, default) ← assignFlows s.pdusessionId ue.drbs [] none s.qos
        let sdapConfig := getSdapConfig enableSdap
        return { pduSessions := ue.pduSessions ++
            [⟨s.pdusessionId, qos, { sdapConfig with defaultDrb := default.getD 0 }⟩], drbs } := by
  have hadd : addPduSession ue.pduSessions s.toPduSession =
      if LeftOut (ue.pduSessions.map PduSession.pdusessionId) s then none
      else some (ue.pduSessions ++ [s.toPduSession]) := addPduSession_eq
  rw [addBearersOfSession, hadd]
  split_ifs <;> rfl

theorem addBearersOfSession_of_suffices (enableSdap : Bool) {s : SetupSession} (h : DrbsOwned ue)
    (hnew : ¬ LeftOut (ue.pduSessions.map PduSession.pdusessionId) s)
    (hsuff : ue.drbs.length + s.drbsNeeded ≤ maxDrbsPerUe ∧ s.FiveqisInRange) :
    ∃ ue', addBearersOfSession enableSdap ue s.toPduSession = .done ue' ∧
      ue'.pduSessions.map PduSession.pdusessionId =
        ue.pduSessions.map PduSession.pdusessionId ++ [s.pdusessionId] ∧
      BearersAdded ue ue' s.drbsNeeded := by
  have hfresh := (not_or.mp hnew).2
  have hloads : loads ue.drbs s.pdusessionId ([] ++ s.qos) = [] := h.loads_eq_nil hfresh
  have hflows : FlowsOk ue.drbs s.pdusessionId ([] ++ s.qos) :=
    flowsOk_of_unassigned s.acceptable s.unassigned
  obtain ⟨drbs, qos, default, hrun, hlen, hafter, hall⟩ :=
    assignFlows_of_suffices none s.idOk h.ids hflows s.unassigned (by simp)
      (by rw [Suffices, hloads]; exact hsuff)
  rw [hloads] at hlen
  rw [addBearersOfSession_eq, if_neg hnew, hrun, Outcome.done_bind]
  refine ⟨_, rfl, by simp, ?_⟩
  have howner : ∀ drb ∈ drbs, drb.pdusessionId ∈
      ue.pduSessions.map PduSession.pdusessionId ++ [s.pdusessionId] := by
    intro drb hdrb
    rcases hafter.new drb hdrb with hdrb | hdrb
    · exact List.mem_append_left _ (h.owner drb hdrb)
    · exact List.mem_append_right _ (List.mem_singleton.mpr hdrb)
  have howned : DrbsOwned ⟨ue.pduSessions ++ [⟨s.pdusessionId, qos,
      { getSdapConfig enableSdap with defaultDrb := default.getD 0 }⟩], drbs⟩ :=
    ⟨hafter.ids, by simpa using howner⟩
  refine ⟨howned, List.prefix_append _ _, hafter.isPrefix, hlen, ?_, ?_⟩
  · intro t ht
    rcases List.mem_append.mp ht with ht | ht
    · exact .inl ht
    · exact .inr (List.mem_singleton.mp ht ▸ hall)
  · intro hok
    refine ⟨howned, ?_, ?_, ?_, ?_⟩
    · rw [List.map_append, List.map_singleton, List.nodup_append_comm, List.singleton_append]
      exact List.nodup_cons.mpr ⟨hfresh, hok.nodup⟩
    · intro t ht
      rcases List.mem_append.mp ht with ht | ht
      · exact hok.idOk t ht
      · exact List.mem_singleton.mp ht ▸ s.idOk
    · intro t ht
      rcases List.mem_append.mp ht with ht | ht
      · exact (hok.flowsOk t ht).mono fun drb hdrb _ => hafter.isPrefix.subset hdrb
      · obtain rfl := List.mem_singleton.mp ht
        exact hafter.ok
    · intro t ht
      rcases List.mem_append.mp ht with ht | ht
      · exact hok.inRange t ht
      · obtain rfl := List.mem_singleton.mp ht
        intro q hq
        have hqmem : q.qos ∈ s.qos.map RrcQos.qos := hafter.same ▸ List.mem_map_of_mem hq
        obtain ⟨r, hr, hrq⟩ := List.mem_map.mp hqmem
        exact hrq ▸ hsuff.2 r hr

theorem addBearersOfSession_of_not_suffices {s : SetupSession} (h : DrbsOwned ue)
    (hnew : ¬ LeftOut (ue.pduSessions.map PduSession.pdusessionId) s)
    (hsuff : ¬ (ue.drbs.length + s.drbsNeeded ≤ maxDrbsPerUe ∧ s.FiveqisInRange)) :
    addBearersOfSession enableSdap ue s.toPduSession = .fault .assertion := by
  have hloads : loads ue.drbs s.pdusessionId ([] ++ s.qos) = [] :=
    h.loads_eq_nil (not_or.mp hnew).2
  have hflows : FlowsOk ue.drbs s.pdusessionId ([] ++ s.qos) :=
    flowsOk_of_unassigned s.acceptable s.unassigned
  have hrun : assignFlows s.pdusessionId ue.drbs [] none s.qos = .fault .assertion :=
    assignFlows_of_not_suffices none s.idOk h.ids hflows s.unassigned
      (by rw [Suffices, hloads]; exact hsuff)
  rw [addBearersOfSession_eq, if_neg hnew, hrun, Outcome.fault_bind]

/-- The DRBs that the sessions of a request open. -/
def requestNeeds (ids : List ℕ) (sessions : List SetupSession) : ℕ :=
  ((accepted ids sessions).map SetupSession.drbsNeeded).sum

/-- The DRBs suffice for a request, and the numbers of the sessions added are 5QIs. -/
def RequestSuffices (ue : RrcUe) (sessions : List SetupSession) : Prop :=
  ue.drbs.length + requestNeeds (ue.pduSessions.map PduSession.pdusessionId) sessions ≤
      maxDrbsPerUe ∧
    ∀ s ∈ accepted (ue.pduSessions.map PduSession.pdusessionId) sessions, s.FiveqisInRange

/-- A request for which the DRBs suffice is carried out, and only such a request. -/
theorem nrRrcAddBearers_of_suffices {sessions : List SetupSession} (h : DrbsOwned ue)
    (hsuff : RequestSuffices ue sessions) :
    ∃ ue', nrRrcAddBearers enableSdap ue (sessions.map SetupSession.toPduSession) = .done ue' ∧
      BearersAdded ue ue'
        (requestNeeds (ue.pduSessions.map PduSession.pdusessionId) sessions) := by
  induction sessions generalizing ue with
  | nil =>
    exact ⟨ue, rfl, h, List.prefix_refl _, List.prefix_refl _, rfl, fun _ hs => .inl hs, id⟩
  | cons s sessions ih =>
    unfold RequestSuffices requestNeeds at hsuff
    unfold requestNeeds
    rw [nrRrcAddBearers, List.map_cons, List.foldlM_cons]
    rw [accepted] at hsuff ⊢
    split_ifs at hsuff ⊢ with hnew
    · rw [addBearersOfSession_eq, if_pos hnew, Outcome.done_bind]
      exact ih h hsuff
    · rw [List.map_cons, List.sum_cons, List.forall_mem_cons] at hsuff
      obtain ⟨hroom, hrange, hrest⟩ := hsuff
      obtain ⟨ue₁, hone, hids, hadded⟩ :=
        addBearersOfSession_of_suffices enableSdap h hnew ⟨by omega, hrange⟩
      rw [hone, Outcome.done_bind]
      have hsuff₁ : RequestSuffices ue₁ sessions := by
        rw [RequestSuffices, requestNeeds, hids, hadded.length]
        exact ⟨by omega, hrest⟩
      obtain ⟨ue', hrun, hafter⟩ := ih hadded.owned hsuff₁
      rw [hids] at hafter
      exact ⟨ue', hrun, hadded.trans hafter⟩

theorem nrRrcAddBearers_of_not_suffices {sessions : List SetupSession} (h : DrbsOwned ue)
    (hsuff : ¬ RequestSuffices ue sessions) :
    nrRrcAddBearers enableSdap ue (sessions.map SetupSession.toPduSession) =
      .fault .assertion := by
  induction sessions generalizing ue with
  | nil => exact absurd ⟨h.ids.length_le, by simp [accepted]⟩ hsuff
  | cons s sessions ih =>
    unfold RequestSuffices requestNeeds at hsuff
    rw [nrRrcAddBearers, List.map_cons, List.foldlM_cons]
    rw [accepted] at hsuff
    split_ifs at hsuff with hnew
    · rw [addBearersOfSession_eq, if_pos hnew, Outcome.done_bind]
      exact ih h hsuff
    · rw [List.map_cons, List.sum_cons, List.forall_mem_cons] at hsuff
      by_cases hone : ue.drbs.length + s.drbsNeeded ≤ maxDrbsPerUe ∧ s.FiveqisInRange
      swap
      · rw [addBearersOfSession_of_not_suffices h hnew hone, Outcome.fault_bind]
      obtain ⟨ue₁, hdone, hids, hadded⟩ :=
        addBearersOfSession_of_suffices enableSdap h hnew hone
      rw [hdone, Outcome.done_bind]
      apply ih hadded.owned
      rintro ⟨hroom, hrest⟩
      rw [hids, hadded.length, requestNeeds] at hroom
      rw [hids] at hrest
      exact hsuff ⟨by omega, hone.2, hrest⟩

end LlmHric.Rrc
