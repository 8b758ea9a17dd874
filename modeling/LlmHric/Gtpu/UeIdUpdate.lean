import LlmHric.Gtpu.Tunnels
import Mathlib.Algebra.Group.Nat.Defs
import Mathlib.Data.List.NodupEquivFin
import Mathlib.Data.List.Perm.Subperm

/-! When a UE gets a new id, its tunnels are moved to it. The loop over the tunnels counts from zero
to the number of bearers and takes the positions for bearer ids. The container it looks them up in
makes an entry for an id that it does not have, so the loop goes on until it has passed the largest
id. -/

namespace LlmHric.Gtpu

/-- The tunnels of a UE by the id of their bearer. -/
abbrev Bearers := AList fun _ : ℤ => Gtpv1uBearer

/-- The subscript operator of a map: the value at a key, and the map with an entry for the key. -/
def atKey {κ β : Type} [DecidableEq κ] (m : AList fun _ : κ => β) (k : κ) (default : β) :
    β × AList fun _ : κ => β :=
  match m.lookup k with
  | some b => (b, m)
  | none => (default, m.insert k default)

/-- The bearer that the subscript operator creates. -/
def zeroBearer : Gtpv1uBearer := ⟨0, ([0, 0, 0, 0], 0), 0, 0, 0, 0, 0⟩

/-- The entry for a TEID that the subscript operator creates. -/
def zeroUeidData : UeidData := ⟨0, 0, none, 0, none, 0⟩

namespace GtpEndPoints

/-- The body of the loop of `gtpv1u_update_ue_id`. -/
def updateBearer (oldUeId newUeId : ℕ) (i : ℤ)
    (maps : Bearers × AList fun _ : UInt32 => UeidData) :
    Bearers × AList fun _ : UInt32 => UeidData :=
  let (bearer, bearers) := atKey maps.1 i zeroBearer
  let (data, te2ueMapping) := atKey maps.2 bearer.teidIncoming zeroUeidData
  (bearers,
    if data.ueId = oldUeId then
      te2ueMapping.insert bearer.teidIncoming { data with ueId := newUeId }
    else te2ueMapping)

/-- The loop of `gtpv1u_update_ue_id`; the number of bearers is read in every round. -/
def updateLoop (oldUeId newUeId : ℕ) :
    ℕ → UInt32 → Bearers × (AList fun _ : UInt32 => UeidData) →
      Option (Bearers × AList fun _ : UInt32 => UeidData)
  | 0, _, _ => none
  | fuel + 1, i, maps =>
    if i.toNat < maps.1.keys.length then
      updateLoop oldUeId newUeId fuel (i + 1) (updateBearer oldUeId newUeId i.toNat maps)
    else some maps

/-- `gtpv1u_update_ue_id`; `none` is a loop that goes on. -/
def gtpv1uUpdateUeId (s : GtpEndPoints) (fuel : ℕ) (instanceP : ℤ) (oldUeId newUeId : ℕ) :
    Option (Bool × GtpEndPoints) :=
  let key := s.compatInst instanceP
  let (inst, instances) := atKey s.instances key ⟨0, ∅⟩
  match inst.ue2teMapping.lookup oldUeId with
  -- `GTPNOK`
  | none => some (false, { s with instances })
  | some bearers =>
    (updateLoop oldUeId newUeId fuel 0 (bearers, s.te2ueMapping)).map
      fun (bearers, te2ueMapping) =>
        (true, { s.setUe2te key inst ((inst.ue2teMapping.insert newUeId bearers).erase oldUeId) with
          te2ueMapping })

def ueEntry (s : GtpEndPoints) (inst : ℤ) (ueId : ℕ) : Option Bearers :=
  (s.instances.lookup inst).bind fun inst => inst.ue2teMapping.lookup ueId

/-- The UE of an instance has a new id: its tunnels are there as they were, their TEIDs lead to it,
the old id is gone, and nothing else is created or changed. -/
structure MovesUe (s s' : GtpEndPoints) (inst : ℤ) (oldUeId newUeId : ℕ) : Prop where
  moved : ∀ b, s'.tunnel ⟨inst, newUeId, b⟩ = s.tunnel ⟨inst, oldUeId, b⟩
  gone : s'.ueEntry inst oldUeId = none
  others : ∀ i u, (i = inst → u ≠ oldUeId ∧ u ≠ newUeId) → s'.ueEntry i u = s.ueEntry i u
  teids : ∀ b bearer, s.tunnel ⟨inst, oldUeId, b⟩ = some bearer →
    s'.te2ueMapping.lookup bearer.teidIncoming =
      (s.te2ueMapping.lookup bearer.teidIncoming).map fun data => { data with ueId := newUeId }
  otherTeids : ∀ teid, (∀ b, ¬ s.Owns ⟨inst, oldUeId, b⟩ teid) →
    s'.te2ueMapping.lookup teid = s.te2ueMapping.lookup teid

/-- The ids of some bearers are the positions from zero on; their number fits into the counter. -/
def IdsArePositions (bearers : Bearers) : Prop :=
  ∃ n : ℕ, n < 2 ^ 32 ∧ ∀ b : ℤ, b ∈ bearers ↔ 0 ≤ b ∧ b < n

/-! ### The loop -/

section Loop

variable {oldUeId newUeId : ℕ} {bearers bearers' : Bearers}
  {te2ue te2ue' : AList fun _ : UInt32 => UeidData}

theorem atKey_of_lookup {κ β : Type} [DecidableEq κ] {m : AList fun _ : κ => β} {k : κ} {b : β}
    (h : m.lookup k = some b) (default : β) : atKey m k default = (b, m) := by
  rw [atKey, h]

theorem mem_atKey {κ β : Type} [DecidableEq κ] {m : AList fun _ : κ => β} {k k' : κ}
    {default : β} : k' ∈ (atKey m k default).2 ↔ k' = k ∨ k' ∈ m := by
  rw [atKey]
  cases hk : m.lookup k with
  | none => exact AList.mem_insert _
  | some b =>
    have hmem : k ∈ m := AList.lookup_isSome.mp (hk ▸ rfl)
    constructor
    · exact .inr
    · rintro (rfl | hk')
      · exact hmem
      · exact hk'

/-- The ids that have been counted are in the map when the loop ends, and there are no others. -/
theorem positions_of_updateLoop {fuel : ℕ} {i : UInt32}
    (h : updateLoop oldUeId newUeId fuel i (bearers, te2ue) = some (bearers', te2ue'))
    (hi : ∀ j : ℕ, j < i.toNat → (j : ℤ) ∈ bearers) : IdsArePositions bearers' := by
  induction fuel generalizing i bearers te2ue with
  | zero => exact absurd h (Option.some_ne_none _).symm
  | succ fuel ih =>
    rw [updateLoop] at h
    split_ifs at h with hlt
    · obtain ⟨⟨bearers₁, te2ue₁⟩, hmaps⟩ :
          ∃ maps, updateBearer oldUeId newUeId i.toNat (bearers, te2ue) = maps := ⟨_, rfl⟩
      have hbearers : bearers₁ = (atKey bearers i.toNat zeroBearer).2 :=
        (congrArg Prod.fst hmaps).symm
      rw [hmaps] at h
      refine ih h fun j hj => ?_
      rw [hbearers]
      apply mem_atKey.mpr
      -- a counter that wraps starts again with nothing to show
      have hj' : j = i.toNat ∨ j < i.toNat := by
        rw [UInt32.toNat_add] at hj
        have hmod := Nat.mod_le (i.toNat + (1 : UInt32).toNat) (2 ^ 32)
        have hone : (1 : UInt32).toNat = 1 := rfl
        omega
      rcases hj' with rfl | hj'
      · exact .inl rfl
      · exact .inr (hi j hj')
    · obtain ⟨rfl, rfl⟩ := Prod.mk.inj (Option.some.inj h)
      refine ⟨i.toNat, i.toNat_lt, fun b => ?_⟩
      -- as many ids as have been counted are all there are
      have hsub : (List.range i.toNat).map (fun j : ℕ => (j : ℤ)) ⊆ bearers.keys := by
        intro b hb
        obtain ⟨j, hj, rfl⟩ := List.mem_map.mp hb
        exact AList.mem_keys.mp (hi j (List.mem_range.mp hj))
      have hnodup : ((List.range i.toNat).map fun j : ℕ => (j : ℤ)).Nodup :=
        List.nodup_range.map fun _ _ heq => Int.ofNat_inj.mp heq
      have hperm := (hnodup.subperm hsub).perm_of_length_le (by simpa using hlt)
      rw [AList.mem_keys, ← hperm.mem_iff, List.mem_map]
      constructor
      · rintro ⟨j, hj, rfl⟩
        have := List.mem_range.mp hj
        omega
      · rintro ⟨hpos, hlt⟩
        exact ⟨b.toNat, List.mem_range.mpr (by omega), by omega⟩

theorem length_keys_of_positions {n : ℕ} (hids : ∀ b : ℤ, b ∈ bearers ↔ 0 ≤ b ∧ b < n) :
    bearers.keys.length = n := by
  have hnodup : ((List.range n).map fun j : ℕ => (j : ℤ)).Nodup :=
    List.nodup_range.map fun _ _ heq => Int.ofNat_inj.mp heq
  have hperm : bearers.keys.Perm ((List.range n).map fun j : ℕ => (j : ℤ)) := by
    apply (List.perm_ext_iff_of_nodup (AList.keys_nodup bearers) hnodup).mpr
    intro b
    rw [← AList.mem_keys, hids, List.mem_map]
    constructor
    · rintro ⟨hpos, hlt⟩
      exact ⟨b.toNat, List.mem_range.mpr (by omega), by omega⟩
    · rintro ⟨j, hj, rfl⟩
      have := List.mem_range.mp hj
      omega
  rw [hperm.length_eq, List.length_map, List.length_range]

/-- A bearer at a position has an entry, and its TEID leads to the UE: nothing is created. -/
theorem updateBearer_of_lookup {b : ℤ} {bearer : Gtpv1uBearer} {data : UeidData}
    (hbearer : bearers.lookup b = some bearer)
    (hdata : te2ue.lookup bearer.teidIncoming = some data) (hue : data.ueId = oldUeId) :
    updateBearer oldUeId newUeId b (bearers, te2ue) =
      (bearers, te2ue.insert bearer.teidIncoming { data with ueId := newUeId }) := by
  simp only [updateBearer, atKey_of_lookup hbearer, atKey_of_lookup hdata, if_pos hue]

/-- If the ids are the positions, the loop visits each bearer once. -/
theorem updateLoop_of_positions (newUeId : ℕ) {n : ℕ} (hn : n < 2 ^ 32)
    (hids : ∀ b : ℤ, b ∈ bearers ↔ 0 ≤ b ∧ b < n)
    (hdistinct : ∀ b b' x x', bearers.lookup b = some x → bearers.lookup b' = some x' →
      x.teidIncoming = x'.teidIncoming → b = b')
    (k : ℕ) {i : UInt32} (hk : i.toNat + k = n)
    (hdata : ∀ b x, (i.toNat : ℤ) ≤ b → bearers.lookup b = some x →
      ∃ data, te2ue.lookup x.teidIncoming = some data ∧ data.ueId = oldUeId) :
    ∃ te2ue', updateLoop oldUeId newUeId (k + 1) i (bearers, te2ue) = some (bearers, te2ue') ∧
      (∀ b x, (i.toNat : ℤ) ≤ b → bearers.lookup b = some x → te2ue'.lookup x.teidIncoming =
        (te2ue.lookup x.teidIncoming).map fun data => { data with ueId := newUeId }) ∧
      ∀ teid, (∀ b x, (i.toNat : ℤ) ≤ b → bearers.lookup b = some x → x.teidIncoming ≠ teid) →
        te2ue'.lookup teid = te2ue.lookup teid := by
  have hlength := length_keys_of_positions hids
  have hinside : ∀ b x, bearers.lookup b = some x → 0 ≤ b ∧ b < n :=
    fun b x hx => (hids b).mp (AList.lookup_isSome.mp (hx ▸ rfl))
  induction k generalizing i te2ue with
  | zero =>
    refine ⟨te2ue, ?_, fun b x hb hx => ?_, fun _ _ => rfl⟩
    · rw [updateLoop, if_neg]
      simp only [hlength]
      omega
    · have := hinside b x hx
      omega
  | succ k ih =>
    have hnext : (i + 1).toNat = i.toNat + 1 := by
      rw [UInt32.toNat_add]
      exact Nat.mod_eq_of_lt (by
        have hone : (1 : UInt32).toNat = 1 := rfl
        omega)
    obtain ⟨bearer, hbearer⟩ : ∃ x, bearers.lookup (i.toNat : ℤ) = some x :=
      Option.isSome_iff_exists.mp (AList.lookup_isSome.mpr ((hids _).mpr (by omega)))
    obtain ⟨data, hfound, hue⟩ := hdata _ bearer (le_refl _) hbearer
    -- the TEIDs of the bearers that follow are others
    have hne : ∀ b x, ((i + 1).toNat : ℤ) ≤ b → bearers.lookup b = some x →
        x.teidIncoming ≠ bearer.teidIncoming := by
      intro b x hb hx heq
      have := hdistinct _ _ _ _ hx hbearer heq
      omega
    have hdata' : ∀ b x, ((i + 1).toNat : ℤ) ≤ b → bearers.lookup b = some x → ∃ d,
        (te2ue.insert bearer.teidIncoming { data with ueId := newUeId }).lookup x.teidIncoming =
          some d ∧ d.ueId = oldUeId := by
      intro b x hb hx
      rw [AList.lookup_insert_ne (hne b x hb hx)]
      exact hdata b x (by omega) hx
    have hk' : (i + 1).toNat + k = n := by omega
    obtain ⟨te2ue', hloop, hmoved, hothers⟩ := ih hk' hdata'
    refine ⟨te2ue', ?_, fun b x hb hx => ?_, fun teid hteid => ?_⟩
    · rw [updateLoop, if_pos]
      · rw [updateBearer_of_lookup hbearer hfound hue]
        exact hloop
      · simp only [hlength]
        omega
    · by_cases hb' : b = i.toNat
      · subst hb'
        obtain rfl := Option.some.inj (hbearer.symm.trans hx)
        rw [hothers _ hne, AList.lookup_insert, hfound]
        rfl
      · rw [hmoved b x (by omega) hx, AList.lookup_insert_ne (hne b x (by omega) hx)]
    · rw [hothers teid fun b x hb hx => hteid b x (by omega) hx]
      exact AList.lookup_insert_ne (hteid _ _ (le_refl _) hbearer).symm

end Loop

/-! ### The update -/

section Update

variable {s s' : GtpEndPoints} {instanceP : ℤ} {oldUeId newUeId : ℕ} {bearers : Bearers}

theorem tunnel_eq_bind (s : GtpEndPoints) (k : TunnelKey) :
    s.tunnel k = (s.ueEntry k.inst k.ueId).bind fun bearers => bearers.lookup k.bearerId := by
  rw [tunnel, ueEntry, Option.bind_assoc]

/-- The tables of UEs after the update. -/
theorem ueEntry_update {key : ℤ} {inst : GtpEndPoint}
    (hinst : s.instances.lookup key = some inst) (te2ueMapping : AList fun _ : UInt32 => UeidData)
    (i : ℤ) (u : ℕ) :
    ueEntry { s.setUe2te key inst ((inst.ue2teMapping.insert newUeId bearers).erase oldUeId) with
        te2ueMapping } i u =
      if i = key then
        if u = oldUeId then none else if u = newUeId then some bearers else s.ueEntry i u
      else s.ueEntry i u := by
  rw [ueEntry, setUe2te]
  by_cases hi : i = key
  · subst hi
    rw [if_pos rfl, AList.lookup_insert, Option.bind_some]
    by_cases hu : u = oldUeId
    · subst hu
      rw [if_pos rfl, AList.lookup_erase]
    · rw [if_neg hu, AList.lookup_erase_ne hu]
      by_cases hnew : u = newUeId
      · subst hnew
        rw [if_pos rfl, AList.lookup_insert]
      · rw [if_neg hnew, AList.lookup_insert_ne hnew, ueEntry, hinst]
        rfl
  · rw [if_neg hi, AList.lookup_insert_ne hi, ueEntry]

theorem gtpv1uUpdateUeId_of_ueEntry
    (hold : s.ueEntry (s.compatInst instanceP) oldUeId = some bearers)
    (fuel : ℕ) (newUeId : ℕ) :
    ∃ inst, s.instances.lookup (s.compatInst instanceP) = some inst ∧
      s.gtpv1uUpdateUeId fuel instanceP oldUeId newUeId =
        (updateLoop oldUeId newUeId fuel 0 (bearers, s.te2ueMapping)).map fun maps =>
          (true, { s.setUe2te (s.compatInst instanceP) inst
              ((inst.ue2teMapping.insert newUeId maps.1).erase oldUeId) with
            te2ueMapping := maps.2 }) := by
  obtain ⟨inst, hinst, hbearers⟩ := Option.bind_eq_some_iff.mp hold
  refine ⟨inst, hinst, ?_⟩
  simp only [gtpv1uUpdateUeId, atKey_of_lookup hinst, hbearers]

theorem tunnel_of_ueEntry {inst : ℤ} (hold : s.ueEntry inst oldUeId = some bearers) (b : ℤ) :
    s.tunnel ⟨inst, oldUeId, b⟩ = bearers.lookup b := by
  rw [tunnel_eq_bind, hold]
  rfl

/-- Bearers that are moved without others being made have the positions for ids. -/
theorem idsArePositions_of_movesUe {fuel : ℕ}
    (hold : s.ueEntry (s.compatInst instanceP) oldUeId = some bearers)
    (hnew : ∀ b, s.tunnel ⟨s.compatInst instanceP, newUeId, b⟩ = none)
    (hupdate : s.gtpv1uUpdateUeId fuel instanceP oldUeId newUeId = some (true, s'))
    (hmoves : MovesUe s s' (s.compatInst instanceP) oldUeId newUeId) :
    IdsArePositions bearers := by
  obtain ⟨inst, hinst, heq⟩ := gtpv1uUpdateUeId_of_ueEntry hold fuel newUeId
  rw [heq] at hupdate
  obtain ⟨⟨bearers', te2ue'⟩, hloop, hresult⟩ := Option.map_eq_some_iff.mp hupdate
  obtain ⟨-, rfl⟩ := Prod.mk.inj hresult
  by_cases hids : newUeId = oldUeId
  · -- an id that is not new has no bearers
    refine ⟨0, by decide, fun b => ?_⟩
    have hnone : bearers.lookup b = none := by
      rw [← tunnel_of_ueEntry hold, ← hids]
      exact hnew b
    rw [← AList.lookup_isSome, hnone]
    constructor
    · exact fun hsome => Bool.noConfusion hsome
    · omega
  · have hlookup : ∀ b, bearers'.lookup b = bearers.lookup b := by
      intro b
      have hmoved := hmoves.moved b
      rwa [tunnel_eq_bind, ueEntry_update hinst, if_pos rfl, if_neg hids, if_pos rfl,
        Option.bind_some, tunnel_of_ueEntry hold] at hmoved
    obtain ⟨n, hn, hn'⟩ :=
      positions_of_updateLoop hloop fun j hj => absurd hj (Nat.not_lt_zero j)
    refine ⟨n, hn, fun b => ?_⟩
    rw [← hn', ← AList.lookup_isSome, ← hlookup, AList.lookup_isSome]

theorem movesUe_of_idsArePositions (h : s.Linked)
    (hold : s.ueEntry (s.compatInst instanceP) oldUeId = some bearers)
    (hnew : ∀ b, s.tunnel ⟨s.compatInst instanceP, newUeId, b⟩ = none)
    (hpositions : IdsArePositions bearers) :
    ∃ fuel s', s.gtpv1uUpdateUeId fuel instanceP oldUeId newUeId = some (true, s') ∧
      MovesUe s s' (s.compatInst instanceP) oldUeId newUeId := by
  have htunnel := tunnel_of_ueEntry hold
  obtain ⟨n, hn, hids⟩ := hpositions
  have hdistinct : ∀ b b' x x', bearers.lookup b = some x → bearers.lookup b' = some x' →
      x.teidIncoming = x'.teidIncoming → b = b' := by
    intro b b' x x' hx hx' heq
    have howner := h.owner_unique ⟨s.compatInst instanceP, oldUeId, b⟩
      ⟨s.compatInst instanceP, oldUeId, b'⟩ x.teidIncoming ⟨x, (htunnel b).trans hx, rfl⟩
      ⟨x', (htunnel b').trans hx', heq.symm⟩
    exact (TunnelKey.mk.inj howner).2.2
  have hdata : ∀ b x, ((0 : UInt32).toNat : ℤ) ≤ b → bearers.lookup b = some x →
      ∃ data, s.te2ueMapping.lookup x.teidIncoming = some data ∧ data.ueId = oldUeId :=
    fun b x _ hx => h.exists_data ⟨s.compatInst instanceP, oldUeId, b⟩ x.teidIncoming
      ⟨x, (htunnel b).trans hx, rfl⟩
  have hzero : (0 : UInt32).toNat + n = n := Nat.zero_add n
  obtain ⟨te2ue', hloop, hmoved, hothers⟩ :=
    updateLoop_of_positions newUeId hn hids hdistinct n hzero hdata
  have hpos : ∀ b x, bearers.lookup b = some x → ((0 : UInt32).toNat : ℤ) ≤ b :=
    fun b x hx => ((hids b).mp (AList.lookup_isSome.mp (hx ▸ rfl))).1
  obtain ⟨inst, hinst, heq⟩ := gtpv1uUpdateUeId_of_ueEntry hold (n + 1) newUeId
  rw [hloop] at heq
  refine ⟨n + 1, _, heq, ?_⟩
  constructor
  · intro b
    rw [tunnel_eq_bind, ueEntry_update hinst, if_pos rfl, htunnel]
    by_cases hsame : newUeId = oldUeId
    · have hnone : bearers.lookup b = none := by
        rw [← htunnel, ← hsame]
        exact hnew b
      rw [if_pos hsame, hnone]
      rfl
    · rw [if_neg hsame, if_pos rfl]
      rfl
  · rw [ueEntry_update hinst, if_pos rfl, if_pos rfl]
  · intro i u hiu
    rw [ueEntry_update hinst]
    split_ifs with hi hu hu'
    · exact absurd hu (hiu hi).1
    · exact absurd hu' (hiu hi).2
    · rfl
    · rfl
  · intro b bearer hbearer
    rw [htunnel] at hbearer
    exact hmoved b bearer (hpos b bearer hbearer) hbearer
  · intro teid hteid
    refine hothers teid fun b x _ hx hx' => hteid b ⟨x, ?_, hx'⟩
    rw [htunnel]
    exact hx

/-- A UE with linked tunnels gets its new id, and nothing else happens, exactly when the ids of its
bearers are the positions. -/
theorem movesUe_iff (h : s.Linked)
    (hold : s.ueEntry (s.compatInst instanceP) oldUeId = some bearers)
    (hnew : ∀ b, s.tunnel ⟨s.compatInst instanceP, newUeId, b⟩ = none) :
    (∃ fuel s', s.gtpv1uUpdateUeId fuel instanceP oldUeId newUeId = some (true, s') ∧
        MovesUe s s' (s.compatInst instanceP) oldUeId newUeId) ↔ IdsArePositions bearers := by
  constructor
  · rintro ⟨fuel, s', hupdate, hmoves⟩
    exact idsArePositions_of_movesUe hold hnew hupdate hmoves
  · exact movesUe_of_idsArePositions h hold hnew

end Update

end GtpEndPoints

open GtpEndPoints

/-- Every UE that has tunnels gets its new id. -/
def UpdatesMoveUes : Prop :=
  ∀ (s : GtpEndPoints) (instanceP : ℤ) (oldUeId newUeId : ℕ) (bearers : Bearers), s.Linked →
    s.ueEntry (s.compatInst instanceP) oldUeId = some bearers →
    (∀ b, s.tunnel ⟨s.compatInst instanceP, newUeId, b⟩ = none) →
    ∃ fuel s', s.gtpv1uUpdateUeId fuel instanceP oldUeId newUeId = some (true, s') ∧
      MovesUe s s' (s.compatInst instanceP) oldUeId newUeId

def tunnelFor (ueId : ℕ) (b : ℤ) (teid : UInt32) : CreateRequest :=
  { firstTunnel teid with ueId := ueId, outgoingBearerId := b }

/-- The tables after a tunnel is created. -/
def GtpEndPoints.created (s : GtpEndPoints) (r : CreateRequest) : GtpEndPoints :=
  (s.op (.create r)).getD s

theorem GtpEndPoints.Linked.created {s : GtpEndPoints} (h : s.Linked) {r : CreateRequest}
    (hnew : s.tunnel (s.requestKey r) = none) : (s.created r).Linked := by
  rw [GtpEndPoints.created]
  cases hop : s.op (.create r) with
  | none => exact h
  | some s' => exact (h.op hop (Option.not_isSome_iff_eq_none.mpr hnew)).1

/-- UE 1 has a tunnel for a bearer. -/
def oneTunnel (b : ℤ) : GtpEndPoints := oneInstance.created (tunnelFor 1 b 100)

theorem linked_oneTunnel (b : ℤ) : (oneTunnel b).Linked :=
  initial_oneInstance.linked.created (initial_oneInstance.noTunnel _)

/-- UE 1 has tunnels for the bearers 0 and 1, and UE 3 has one for a bearer 0 of its own. -/
def twoUes : GtpEndPoints :=
  ((oneTunnel 0).created (tunnelFor 1 1 101)).created (tunnelFor 3 0 102)

theorem linked_twoUes : twoUes.Linked :=
  ((linked_oneTunnel 0).created rfl).created rfl

/-- A bearer to the address of the requests. -/
def bearerWith (teid : UInt32) : Gtpv1uBearer := ⟨5, ([10, 0, 0, 1], 2152), teid, 7, 0, 0, 0⟩

def twoBearers : Bearers := ((∅ : Bearers).insert 0 (bearerWith 100)).insert 1 (bearerWith 101)

theorem mem_twoBearers {b : ℤ} : b ∈ twoBearers ↔ b = 1 ∨ b = 0 := by
  rw [twoBearers, AList.mem_insert, AList.mem_insert]
  exact or_congr_right (or_iff_left (AList.notMem_empty b))

/-- UE 1 gets the id 2 with both its bearers, and UE 3 stays. -/
theorem movesUe_twoUes :
    ∃ fuel s', twoUes.gtpv1uUpdateUeId fuel 5 1 2 = some (true, s') ∧
      MovesUe twoUes s' (twoUes.compatInst 5) 1 2 := by
  have hold : twoUes.ueEntry (twoUes.compatInst 5) 1 = some twoBearers := rfl
  apply (movesUe_iff linked_twoUes hold fun b => rfl).mpr
  refine ⟨2, by decide, fun b => ?_⟩
  rw [mem_twoBearers]
  omega

/-- The UE with the bearer 1 also gets a bearer 0. -/
theorem not_updatesMoveUes : ¬ UpdatesMoveUes := by
  intro h
  have hold : (oneTunnel 1).ueEntry ((oneTunnel 1).compatInst 5) 1 =
      some ((∅ : Bearers).insert 1 (bearerWith 100)) := rfl
  have hmem : ∀ b, b ∈ (∅ : Bearers).insert 1 (bearerWith 100) ↔ b = 1 := fun b => by
    rw [AList.mem_insert]
    exact or_iff_left (AList.notMem_empty b)
  obtain ⟨fuel, s', hupdate, hmoves⟩ :=
    h (oneTunnel 1) 5 1 2 _ (linked_oneTunnel 1) hold fun b => rfl
  obtain ⟨n, -, hids⟩ := idsArePositions_of_movesUe hold (fun b => rfl) hupdate hmoves
  -- with the bearer 1 there would be a bearer 0
  have hone := (hids 1).mp ((hmem 1).mpr rfl)
  have hzero := (hmem 0).mp ((hids 0).mpr (by omega))
  exact absurd hzero (by decide)

end LlmHric.Gtpu
