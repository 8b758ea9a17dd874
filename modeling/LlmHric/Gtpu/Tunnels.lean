import LlmHric.Library.Run
import Mathlib.Data.Int.Notation
import Mathlib.Data.List.AList

/-! A GTP-U instance is a UDP socket. It has a table of its UEs, with the tunnels of each by the id
of their bearer; a table for all instances leads from the TEID of an incoming packet to a UE. The
two tables are maintained by hand: a tunnel that is created again drops the whole entry of its UE
from the first table, and nothing from the second.

A new TEID is drawn at random until one is not in use. The numbers that are drawn are part of a
request. -/

namespace LlmHric.Gtpu

open Run

/-! ### Tables -/

/-- `gtpv1u_bearer_t`. An address is an IPv4 address with a port. -/
structure Gtpv1uBearer where
  sockFd : ℤ
  ip : List UInt8 × UInt16
  teidIncoming : UInt32
  teidOutgoing : UInt32
  seqNum : UInt16
  npduNum : UInt8
  nruSequenceNumber : ℤ
  deriving DecidableEq

/-- `ueidData_t`. A callback is a number here, or null. -/
structure UeidData where
  ueId : ℕ
  incomingRbId : UInt16
  callBack : Option ℕ
  outgoingTeid : UInt32
  callBackSDAP : Option ℕ
  pdusessionId : UInt16
  deriving DecidableEq

/-- `gtpEndPoint`, with the destination port as a number. -/
structure GtpEndPoint where
  dstport : UInt16
  ue2teMapping : AList fun _ : ℕ => AList fun _ : ℤ => Gtpv1uBearer

/-- `gtpEndPoints`, with `legacyInstanceMapping`. -/
structure GtpEndPoints where
  instances : AList fun _ : ℤ => GtpEndPoint
  te2ueMapping : AList fun _ : UInt32 => UeidData
  legacyInstanceMapping : ℤ

/-- `transport_layer_addr_t`; the length is in bits. -/
structure TransportLayerAddr where
  length : ℕ
  buffer : List UInt8
  deriving DecidableEq

/-- The arguments of `newGtpuCreateTunnel`, with the TEIDs that `gtpv1uNewTeid` draws. -/
structure CreateRequest where
  inst : ℤ
  ueId : ℕ
  incomingBearerId : ℤ
  outgoingBearerId : ℤ
  outgoingTeid : UInt32
  remoteAddr : TransportLayerAddr
  callBack : Option ℕ
  callBackSDAP : Option ℕ
  newTeids : List UInt32
  deriving DecidableEq

/-- `INSTANCE_DEFAULT` -/
def instanceDefault : ℤ := 65534

namespace GtpEndPoints

/-- `compatInst` -/
def compatInst (s : GtpEndPoints) (a : ℤ) : ℤ :=
  if a = 0 ∨ a = instanceDefault then s.legacyInstanceMapping else a

/-- The key of an instance. The operations map it before and in `getInstRetInt`. -/
def instKey (s : GtpEndPoints) (a : ℤ) : ℤ := s.compatInst (s.compatInst a)

/-- The tunnels of the UEs of an instance are replaced. -/
def setUe2te (s : GtpEndPoints) (key : ℤ) (inst : GtpEndPoint)
    (ue2teMapping : AList fun _ : ℕ => AList fun _ : ℤ => Gtpv1uBearer) : GtpEndPoints :=
  { s with instances := s.instances.insert key { inst with ue2teMapping } }

/-- The entry of `te2ue_mapping` for a new tunnel. -/
def newUeidData (r : CreateRequest) : UeidData :=
  ⟨r.ueId, .ofInt r.incomingBearerId, r.callBack, r.outgoingTeid, r.callBackSDAP,
    (UInt8.ofInt r.outgoingBearerId).toUInt16⟩

/-- The tunnel for a request. -/
def newBearer (s : GtpEndPoints) (inst : GtpEndPoint) (r : CreateRequest) (teid : UInt32) :
    Gtpv1uBearer :=
  ⟨s.compatInst r.inst, (r.remoteAddr.buffer.take 4, inst.dstport), teid, r.outgoingTeid, 0, 0, 0⟩

/-- `newGtpuCreateTunnel`; it does not return as long as the TEIDs it draws are in use, or if the
address is not an IPv4 address. -/
def newGtpuCreateTunnel (s : GtpEndPoints) (r : CreateRequest) : Option (UInt32 × GtpEndPoints) :=
  match s.instances.lookup (s.instKey r.inst) with
  -- `GTPNOK`
  | none => some (0xFFFFFFFF, s)
  | some inst =>
    let ue2teMapping :=
      match inst.ue2teMapping.lookup r.ueId with
      | some bearers =>
        -- the tunnel exists: the entry of the UE is erased
        if (bearers.lookup r.outgoingBearerId).isSome then inst.ue2teMapping.erase r.ueId
        else inst.ue2teMapping
      | none => inst.ue2teMapping
    match r.newTeids.find? fun teid => (s.te2ueMapping.lookup teid).isNone with
    | none => none
    | some teid =>
      if r.remoteAddr.length / 8 ≠ 4 then none
      else
        let bearers := ((ue2teMapping.lookup r.ueId).getD ∅).insert r.outgoingBearerId
          (s.newBearer inst r teid)
        some (teid, { s.setUe2te (s.instKey r.inst) inst (ue2teMapping.insert r.ueId bearers) with
          te2ueMapping := s.te2ueMapping.insert teid (newUeidData r) })

/-- `newGtpuDeleteOneTunnel` -/
def newGtpuDeleteOneTunnel (s : GtpEndPoints) (instanceId : ℤ) (ueId : ℕ) (rbId : ℤ) :
    GtpEndPoints :=
  match s.instances.lookup (s.instKey instanceId) with
  | none => s
  | some inst =>
    match inst.ue2teMapping.lookup ueId with
    | none => s
    | some bearers =>
      match bearers.lookup rbId with
      | none => s
      | some bearer =>
        { s.setUe2te (s.instKey instanceId) inst
            (inst.ue2teMapping.insert ueId (bearers.erase rbId)) with
          te2ueMapping := s.te2ueMapping.erase bearer.teidIncoming }

/-- `newGtpuDeleteAllTunnels` -/
def newGtpuDeleteAllTunnels (s : GtpEndPoints) (instanceId : ℤ) (ueId : ℕ) : GtpEndPoints :=
  match s.instances.lookup (s.instKey instanceId) with
  | none => s
  | some inst =>
    match inst.ue2teMapping.lookup ueId with
    | none => s
    | some bearers =>
      { s.setUe2te (s.instKey instanceId) inst (inst.ue2teMapping.erase ueId) with
        te2ueMapping := bearers.entries.foldl (fun m j => m.erase j.2.teidIncoming)
          s.te2ueMapping }

end GtpEndPoints

/-- An operation on the tunnels. -/
inductive TunnelOp
  | create (r : CreateRequest)
  | deleteOne (inst : ℤ) (ueId : ℕ) (rbId : ℤ)
  | deleteAll (inst : ℤ) (ueId : ℕ)

namespace GtpEndPoints

/-- An operation that returns. -/
def op (s : GtpEndPoints) : TunnelOp → Option GtpEndPoints
  | .create r => (s.newGtpuCreateTunnel r).map (·.2)
  | .deleteOne inst ueId rbId => some (s.newGtpuDeleteOneTunnel inst ueId rbId)
  | .deleteAll inst ueId => some (s.newGtpuDeleteAllTunnels inst ueId)

end GtpEndPoints

/-- Where a tunnel is in the tables of UEs. -/
structure TunnelKey where
  inst : ℤ
  ueId : ℕ
  bearerId : ℤ
  deriving DecidableEq

namespace GtpEndPoints

variable {s s' : GtpEndPoints} {k k' : TunnelKey} {r : CreateRequest}

def tunnel (s : GtpEndPoints) (k : TunnelKey) : Option Gtpv1uBearer :=
  (s.instances.lookup k.inst).bind fun inst =>
    (inst.ue2teMapping.lookup k.ueId).bind fun bearers => bearers.lookup k.bearerId

def Owns (s : GtpEndPoints) (k : TunnelKey) (teid : UInt32) : Prop :=
  ∃ bearer, s.tunnel k = some bearer ∧ bearer.teidIncoming = teid

/-- The two tables are inverse to each other. -/
structure Inverse (s : GtpEndPoints) : Prop where
  isKey_iff : ∀ teid, (∃ data, s.te2ueMapping.lookup teid = some data) ↔ ∃! k, s.Owns k teid
  ueId_eq : ∀ k teid data, s.Owns k teid → s.te2ueMapping.lookup teid = some data →
    data.ueId = k.ueId

/-- The tunnels an operation is about. -/
def Touches (s : GtpEndPoints) (k : TunnelKey) : TunnelOp → Prop
  | .create r => k = ⟨s.instKey r.inst, r.ueId, r.outgoingBearerId⟩
  | .deleteOne inst ueId rbId => k = ⟨s.instKey inst, ueId, rbId⟩
  | .deleteAll inst ueId => k.inst = s.instKey inst ∧ k.ueId = ueId

/-- An operation leaves all other tunnels in place, in both tables. -/
def KeepsOthers (op : TunnelOp) (s s' : GtpEndPoints) : Prop :=
  ∀ k, ¬ s.Touches k op → s'.tunnel k = s.tunnel k ∧
    ∀ bearer, s.tunnel k = some bearer →
      s'.te2ueMapping.lookup bearer.teidIncoming = s.te2ueMapping.lookup bearer.teidIncoming

/-- A request is for a tunnel that exists. -/
def Recreates (s : GtpEndPoints) : TunnelOp → Prop
  | .create r => (s.tunnel ⟨s.instKey r.inst, r.ueId, r.outgoingBearerId⟩).isSome
  | _ => False

/-- Every TEID has a tunnel, every tunnel has a TEID of its UE, and no two have the same. -/
structure Linked (s : GtpEndPoints) : Prop where
  exists_owner : ∀ teid data, s.te2ueMapping.lookup teid = some data → ∃ k, s.Owns k teid
  exists_data : ∀ k teid, s.Owns k teid →
    ∃ data, s.te2ueMapping.lookup teid = some data ∧ data.ueId = k.ueId
  owner_unique : ∀ k k' teid, s.Owns k teid → s.Owns k' teid → k = k'

theorem Linked.inverse (h : s.Linked) : s.Inverse := by
  constructor
  · intro teid
    constructor
    · rintro ⟨data, hdata⟩
      obtain ⟨k, hk⟩ := h.exists_owner teid data hdata
      exact ⟨k, hk, fun k' hk' => h.owner_unique k' k teid hk' hk⟩
    · rintro ⟨k, hk, -⟩
      obtain ⟨data, hdata, -⟩ := h.exists_data k teid hk
      exact ⟨data, hdata⟩
  · intro k teid data hk hdata
    obtain ⟨data', hdata', hue⟩ := h.exists_data k teid hk
    obtain rfl := Option.some.inj (hdata.symm.trans hdata')
    exact hue

/-- What an operation did to the tables: some tunnels went with their TEIDs, and one may be new. -/
structure Moved (s s' : GtpEndPoints) (gone : TunnelKey → Prop) : Prop where
  tunnel_of_gone : ∀ k, gone k → s'.tunnel k = none
  tunnel_eq : ∀ k, ¬ gone k → s'.tunnel k = s.tunnel k
  lookup_of_gone : ∀ k teid, gone k → s.Owns k teid → s'.te2ueMapping.lookup teid = none
  lookup_eq : ∀ teid, (∀ k, gone k → ¬ s.Owns k teid) →
    s'.te2ueMapping.lookup teid = s.te2ueMapping.lookup teid

theorem Owns.unique {teid teid' : UInt32} (h : s.Owns k teid) (h' : s.Owns k teid') :
    teid = teid' := by
  obtain ⟨bearer, hbearer, rfl⟩ := h
  obtain ⟨bearer', hbearer', rfl⟩ := h'
  rw [hbearer] at hbearer'
  rw [Option.some.inj hbearer']

theorem owns_congr {teid : UInt32} (h : s'.tunnel k = s.tunnel k) :
    s'.Owns k teid ↔ s.Owns k teid := by
  rw [Owns, Owns, h]

theorem tunnel_setUe2te (key : ℤ) (inst : GtpEndPoint)
    (m : AList fun _ : ℕ => AList fun _ : ℤ => Gtpv1uBearer)
    (te2ueMapping : AList fun _ : UInt32 => UeidData) (k : TunnelKey) :
    tunnel { s.setUe2te key inst m with te2ueMapping } k =
      if k.inst = key then (m.lookup k.ueId).bind fun bearers => bearers.lookup k.bearerId
      else s.tunnel k := by
  rw [tunnel, setUe2te]
  split_ifs with hkey
  · rw [hkey, AList.lookup_insert]
    rfl
  · rw [AList.lookup_insert_ne hkey]
    rfl

/-! ### Deletion -/

theorem Moved.keepsOthers {gone : TunnelKey → Prop} (hmoved : Moved s s' gone) (h : s.Linked)
    (hk : ¬ gone k) : s'.tunnel k = s.tunnel k ∧ ∀ bearer, s.tunnel k = some bearer →
      s'.te2ueMapping.lookup bearer.teidIncoming = s.te2ueMapping.lookup bearer.teidIncoming := by
  refine ⟨hmoved.tunnel_eq k hk, fun bearer hbearer => hmoved.lookup_eq _ fun k' hk' howns => ?_⟩
  exact hk (h.owner_unique k' k _ howns ⟨bearer, hbearer, rfl⟩ ▸ hk')

/-- The tables stay linked when tunnels go with their TEIDs. -/
theorem Moved.linked {gone : TunnelKey → Prop} (hmoved : Moved s s' gone) (h : s.Linked) :
    s'.Linked := by
  have hstays : ∀ k teid, s'.Owns k teid → ¬ gone k ∧ s.Owns k teid := by
    rintro k teid ⟨bearer, hbearer, hteid⟩
    have hk : ¬ gone k := by
      intro hgone
      rw [hmoved.tunnel_of_gone k hgone] at hbearer
      exact absurd hbearer (Option.some_ne_none _).symm
    rw [hmoved.tunnel_eq k hk] at hbearer
    exact ⟨hk, bearer, hbearer, hteid⟩
  have hlookup : ∀ k teid, ¬ gone k → s.Owns k teid →
      s'.te2ueMapping.lookup teid = s.te2ueMapping.lookup teid := by
    intro k teid hk howns
    apply hmoved.lookup_eq
    exact fun k' hk' howns' => hk (h.owner_unique k' k teid howns' howns ▸ hk')
  constructor
  · intro teid data hdata
    by_cases hgone : ∃ k, gone k ∧ s.Owns k teid
    · obtain ⟨k, hk, howns⟩ := hgone
      rw [hmoved.lookup_of_gone k teid hk howns] at hdata
      exact absurd hdata (Option.some_ne_none _).symm
    · have hnone : ∀ k, gone k → ¬ s.Owns k teid := fun k hk howns => hgone ⟨k, hk, howns⟩
      rw [hmoved.lookup_eq teid hnone] at hdata
      obtain ⟨k, hk⟩ := h.exists_owner teid data hdata
      refine ⟨k, (owns_congr (hmoved.tunnel_eq k ?_)).mpr hk⟩
      exact fun hgone => hnone k hgone hk
  · intro k teid howns
    obtain ⟨hk, howns⟩ := hstays k teid howns
    rw [hlookup k teid hk howns]
    exact h.exists_data k teid howns
  · intro k k' teid howns howns'
    exact h.owner_unique k k' teid (hstays k teid howns).2 (hstays k' teid howns').2

theorem moved_refl {gone : TunnelKey → Prop} (h : ∀ k, gone k → s.tunnel k = none) :
    Moved s s gone := by
  refine ⟨h, fun _ _ => rfl, fun k teid hk => ?_, fun _ _ => rfl⟩
  rintro ⟨bearer, hbearer, -⟩
  rw [h k hk] at hbearer
  exact absurd hbearer (Option.some_ne_none _).symm

theorem moved_deleteOne (s : GtpEndPoints) (instanceId : ℤ) (ueId : ℕ) (rbId : ℤ) :
    Moved s (s.newGtpuDeleteOneTunnel instanceId ueId rbId)
      fun k => k = ⟨s.instKey instanceId, ueId, rbId⟩ := by
  rw [newGtpuDeleteOneTunnel]
  cases hinst : s.instances.lookup (s.instKey instanceId) with
  | none =>
    apply moved_refl
    rintro k rfl
    rw [tunnel, hinst]
    rfl
  | some inst =>
    cases hbearers : inst.ue2teMapping.lookup ueId with
    | none =>
      simp only [hbearers]
      apply moved_refl
      rintro k rfl
      rw [tunnel, hinst, Option.bind_some, hbearers]
      rfl
    | some bearers =>
      have htunnel : ∀ b, s.tunnel ⟨s.instKey instanceId, ueId, b⟩ = bearers.lookup b := by
        intro b
        rw [tunnel, hinst, Option.bind_some, hbearers]
        rfl
      cases hbearer : bearers.lookup rbId with
      | none =>
        simp only [hbearers, hbearer]
        apply moved_refl
        rintro k rfl
        exact (htunnel rbId).trans hbearer
      | some bearer =>
        simp only [hbearers, hbearer]
        have howner : s.Owns ⟨s.instKey instanceId, ueId, rbId⟩ bearer.teidIncoming :=
          ⟨bearer, (htunnel rbId).trans hbearer, rfl⟩
        constructor
        · rintro k rfl
          rw [tunnel_setUe2te, if_pos rfl, AList.lookup_insert, Option.bind_some,
            AList.lookup_erase]
        · rintro ⟨i, u, b⟩ hk
          rw [tunnel_setUe2te]
          split_ifs with hi
          · have hi : i = s.instKey instanceId := hi
            subst hi
            by_cases hu : u = ueId
            · subst hu
              have hb : b ≠ rbId := fun hb => hk (by rw [hb])
              rw [AList.lookup_insert, Option.bind_some, AList.lookup_erase_ne hb, htunnel]
            · rw [AList.lookup_insert_ne hu, tunnel, hinst]
              rfl
          · rfl
        · rintro k teid rfl howns
          rw [howns.unique howner]
          exact AList.lookup_erase _ _
        · intro teid hnone
          apply AList.lookup_erase_ne
          rintro rfl
          exact hnone _ rfl howner

/-- The TEIDs of some tunnels are erased. -/
theorem lookup_foldl_erase (l : List (Sigma fun _ : ℤ => Gtpv1uBearer))
    (m : AList fun _ : UInt32 => UeidData) (teid : UInt32) :
    (l.foldl (fun m j => m.erase j.2.teidIncoming) m).lookup teid =
      if ∃ j ∈ l, j.2.teidIncoming = teid then none else m.lookup teid := by
  induction l generalizing m with
  | nil => simp
  | cons j l ih =>
    rw [List.foldl_cons, ih]
    by_cases hj : j.2.teidIncoming = teid
    · subst hj
      simp [AList.lookup_erase]
    · rw [AList.lookup_erase_ne (Ne.symm hj)]
      simp only [List.mem_cons, exists_eq_or_imp, hj, false_or]

theorem moved_deleteAll (s : GtpEndPoints) (instanceId : ℤ) (ueId : ℕ) :
    Moved s (s.newGtpuDeleteAllTunnels instanceId ueId)
      fun k => k.inst = s.instKey instanceId ∧ k.ueId = ueId := by
  rw [newGtpuDeleteAllTunnels]
  cases hinst : s.instances.lookup (s.instKey instanceId) with
  | none =>
    apply moved_refl
    rintro k ⟨hk, -⟩
    rw [tunnel, hk, hinst]
    rfl
  | some inst =>
    cases hbearers : inst.ue2teMapping.lookup ueId with
    | none =>
      simp only [hbearers]
      apply moved_refl
      rintro k ⟨hk, hue⟩
      rw [tunnel, hk, hinst, Option.bind_some, hue, hbearers]
      rfl
    | some bearers =>
      simp only [hbearers]
      have htunnel : ∀ b, s.tunnel ⟨s.instKey instanceId, ueId, b⟩ = bearers.lookup b := by
        intro b
        rw [tunnel, hinst, Option.bind_some, hbearers]
        rfl
      have hteid : ∀ teid, (∃ j ∈ bearers.entries, j.2.teidIncoming = teid) ↔
          ∃ b, s.Owns ⟨s.instKey instanceId, ueId, b⟩ teid := by
        intro teid
        constructor
        · rintro ⟨⟨b, bearer⟩, hmem, hteid⟩
          exact ⟨b, bearer, (htunnel b).trans (AList.mem_lookup_iff.mpr hmem), hteid⟩
        · rintro ⟨b, bearer, hbearer, hteid⟩
          exact ⟨⟨b, bearer⟩, AList.mem_lookup_iff.mp ((htunnel b).symm.trans hbearer), hteid⟩
      constructor
      · rintro k ⟨hk, hue⟩
        rw [tunnel_setUe2te, if_pos hk, hue, AList.lookup_erase]
        rfl
      · intro k hk
        rw [tunnel_setUe2te]
        split_ifs with hi
        · rw [AList.lookup_erase_ne fun hue => hk ⟨hi, hue⟩, tunnel, hi, hinst]
          rfl
        · rfl
      · rintro ⟨i, u, b⟩ teid ⟨hi, hu⟩ howns
        have hi : i = s.instKey instanceId := hi
        have hu : u = ueId := hu
        subst hi hu
        rw [lookup_foldl_erase, if_pos ((hteid teid).mpr ⟨b, howns⟩)]
      · intro teid hnone
        rw [lookup_foldl_erase, if_neg]
        rw [hteid]
        rintro ⟨b, howns⟩
        exact hnone _ ⟨rfl, rfl⟩ howns

/-! ### Creation -/

def requestKey (s : GtpEndPoints) (r : CreateRequest) : TunnelKey :=
  ⟨s.instKey r.inst, r.ueId, r.outgoingBearerId⟩

/-- A tunnel has been created. If it was there already, the other tunnels of its UE are gone. -/
structure Created (r : CreateRequest) (s s' : GtpEndPoints) (teid : UInt32) : Prop where
  fresh : s.te2ueMapping.lookup teid = none
  lookup_eq : ∀ t, s'.te2ueMapping.lookup t =
    if t = teid then some (newUeidData r) else s.te2ueMapping.lookup t
  owns : s'.Owns (s.requestKey r) teid
  tunnel_ne : ∀ k, k ≠ s.requestKey r → s'.tunnel k = s.tunnel k ∨
    (s.tunnel (s.requestKey r)).isSome ∧ s'.tunnel k = none

theorem created_of_newGtpuCreateTunnel {teid : UInt32}
    (h : s.newGtpuCreateTunnel r = some (teid, s')) :
    s' = s ∧ s.tunnel (s.requestKey r) = none ∨ Created r s s' teid := by
  rw [newGtpuCreateTunnel] at h
  cases hinst : s.instances.lookup (s.instKey r.inst) with
  | none =>
    rw [hinst] at h
    obtain ⟨-, rfl⟩ := Prod.mk.inj (Option.some.inj h)
    refine .inl ⟨rfl, ?_⟩
    rw [tunnel, requestKey, hinst]
    rfl
  | some inst =>
    right
    simp only [hinst] at h
    generalize hm : (match inst.ue2teMapping.lookup r.ueId with
      | some bearers =>
        if (bearers.lookup r.outgoingBearerId).isSome then inst.ue2teMapping.erase r.ueId
        else inst.ue2teMapping
      | none => inst.ue2teMapping) = m at h
    cases hteid : r.newTeids.find? fun teid => (s.te2ueMapping.lookup teid).isNone with
    | none =>
      rw [hteid] at h
      exact absurd h (Option.some_ne_none _).symm
    | some teid' =>
      simp only [hteid] at h
      split_ifs at h
      obtain ⟨rfl, rfl⟩ := Prod.mk.inj (Option.some.inj h)
      -- the entry of another UE stays, and so does that of this one if the tunnel is new
      have hother : ∀ u, u ≠ r.ueId → m.lookup u = inst.ue2teMapping.lookup u := by
        intro u hu
        rw [← hm]
        split
        · split_ifs
          · exact AList.lookup_erase_ne hu
          · rfl
        · rfl
      have hsame : m.lookup r.ueId = inst.ue2teMapping.lookup r.ueId ∨
          (s.tunnel (s.requestKey r)).isSome ∧ m.lookup r.ueId = none := by
        rw [← hm]
        split
        · next bearers hbearers =>
          split_ifs with hexists
          · right
            rw [tunnel, requestKey, hinst, Option.bind_some, hbearers]
            exact ⟨hexists, AList.lookup_erase _ _⟩
          · exact .inl rfl
        · exact .inl rfl
      constructor
      · have hfresh := List.find?_some hteid
        exact Option.isNone_iff_eq_none.mp hfresh
      · intro t
        split_ifs with ht
        · subst ht
          exact AList.lookup_insert _
        · exact AList.lookup_insert_ne ht
      · refine ⟨s.newBearer inst r teid', ?_, rfl⟩
        rw [requestKey, tunnel_setUe2te, if_pos rfl, AList.lookup_insert, Option.bind_some,
          AList.lookup_insert]
      · rintro ⟨i, u, b⟩ hk
        rw [tunnel_setUe2te]
        by_cases hi : i = s.instKey r.inst
        · subst hi
          rw [if_pos rfl]
          by_cases hu : u = r.ueId
          · subst hu
            have hb : b ≠ r.outgoingBearerId := fun hb => hk (by rw [hb, requestKey])
            rw [AList.lookup_insert, Option.bind_some, AList.lookup_insert_ne hb]
            rcases hsame with hsame | ⟨hexists, hsame⟩
            · left
              rw [hsame, tunnel, hinst, Option.bind_some]
              cases inst.ue2teMapping.lookup r.ueId <;> rfl
            · right
              rw [hsame]
              exact ⟨hexists, rfl⟩
          · left
            rw [AList.lookup_insert_ne hu, hother u hu, tunnel, hinst]
            rfl
        · rw [if_neg hi]
          exact .inl rfl

/-- A new tunnel. -/
theorem Created.linked {teid : UInt32} (hcreated : Created r s s' teid) (h : s.Linked)
    (hnew : s.tunnel (s.requestKey r) = none) : s'.Linked := by
  have hsame : ∀ k, k ≠ s.requestKey r → s'.tunnel k = s.tunnel k := by
    intro k hk
    rcases hcreated.tunnel_ne k hk with hsame | ⟨hexists, -⟩
    · exact hsame
    · rw [hnew] at hexists
      exact Bool.noConfusion hexists
  have howns : ∀ k t, s'.Owns k t → k = s.requestKey r ∧ t = teid ∨ s.Owns k t ∧ t ≠ teid := by
    intro k t hk
    by_cases hkey : k = s.requestKey r
    · subst hkey
      exact .inl ⟨rfl, hk.unique hcreated.owns⟩
    · have hk := (owns_congr (hsame k hkey)).mp hk
      refine .inr ⟨hk, ?_⟩
      rintro rfl
      obtain ⟨data, hdata, -⟩ := h.exists_data k t hk
      rw [hcreated.fresh] at hdata
      exact absurd hdata (Option.some_ne_none _).symm
  constructor
  · intro t data hdata
    rw [hcreated.lookup_eq] at hdata
    split_ifs at hdata with ht
    · exact ⟨_, ht ▸ hcreated.owns⟩
    · obtain ⟨k, hk⟩ := h.exists_owner t data hdata
      refine ⟨k, (owns_congr (hsame k ?_)).mpr hk⟩
      rintro rfl
      obtain ⟨bearer, hbearer, -⟩ := hk
      rw [hnew] at hbearer
      exact absurd hbearer (Option.some_ne_none _).symm
  · intro k t hk
    rw [hcreated.lookup_eq]
    rcases howns k t hk with ⟨rfl, rfl⟩ | ⟨hk, ht⟩
    · exact ⟨newUeidData r, if_pos rfl, rfl⟩
    · rw [if_neg ht]
      exact h.exists_data k t hk
  · intro k k' t hk hk'
    rcases howns k t hk with ⟨rfl, rfl⟩ | ⟨hk, ht⟩
    · rcases howns k' t hk' with ⟨rfl, -⟩ | ⟨-, ht⟩
      · rfl
      · exact absurd rfl ht
    · rcases howns k' t hk' with ⟨-, rfl⟩ | ⟨hk', -⟩
      · exact absurd rfl ht
      · exact h.owner_unique k k' t hk hk'

/-- A tunnel that is created again leaves its old TEID behind. -/
theorem Created.not_inverse {teid : UInt32} (hcreated : Created r s s' teid) (h : s.Linked)
    (hexists : (s.tunnel (s.requestKey r)).isSome) : ¬ s'.Inverse := by
  intro hinverse
  obtain ⟨old, hold⟩ := Option.isSome_iff_exists.mp hexists
  have howns : s.Owns (s.requestKey r) old.teidIncoming := ⟨old, hold, rfl⟩
  obtain ⟨data, hdata, -⟩ := h.exists_data _ _ howns
  have hne : old.teidIncoming ≠ teid := by
    intro heq
    rw [heq, hcreated.fresh] at hdata
    exact absurd hdata (Option.some_ne_none _).symm
  have hkey : s'.te2ueMapping.lookup old.teidIncoming = some data := by
    rw [hcreated.lookup_eq, if_neg hne, hdata]
  obtain ⟨k, hk, -⟩ := (hinverse.isKey_iff _).mp ⟨data, hkey⟩
  by_cases heq : k = s.requestKey r
  · subst heq
    exact hne (hk.unique hcreated.owns)
  · rcases hcreated.tunnel_ne k heq with hsame | ⟨-, hnone⟩
    · exact heq (h.owner_unique k _ _ ((owns_congr hsame).mp hk) howns)
    · obtain ⟨bearer, hbearer, -⟩ := hk
      rw [hnone] at hbearer
      exact absurd hbearer (Option.some_ne_none _).symm

theorem Linked.op {op : TunnelOp} (h : s.Linked) (hop : s.op op = some s')
    (hnew : ¬ s.Recreates op) :
    s'.Linked ∧ KeepsOthers op s s' := by
  cases op with
  | create r =>
    obtain ⟨⟨teid, t⟩, hcreate, rfl⟩ := Option.map_eq_some_iff.mp hop
    have hnone : s.tunnel (s.requestKey r) = none :=
      Option.not_isSome_iff_eq_none.mp hnew
    rcases created_of_newGtpuCreateTunnel hcreate with ⟨heq, -⟩ | hcreated
    · change t = s at heq
      subst heq
      exact ⟨h, fun k _ => ⟨rfl, fun _ _ => rfl⟩⟩
    · refine ⟨hcreated.linked h hnone, fun k hk => ?_⟩
      constructor
      · rcases hcreated.tunnel_ne k hk with hsame | ⟨hexists, -⟩
        · exact hsame
        · exact absurd hexists hnew
      · intro bearer hbearer
        rw [hcreated.lookup_eq, if_neg]
        intro heq
        obtain ⟨data, hdata, -⟩ := h.exists_data k _ ⟨bearer, hbearer, rfl⟩
        rw [heq, hcreated.fresh] at hdata
        exact absurd hdata (Option.some_ne_none _).symm
  | deleteOne inst ueId rbId =>
    obtain rfl := Option.some.inj hop
    have hmoved := moved_deleteOne s inst ueId rbId
    exact ⟨hmoved.linked h, fun k hk => hmoved.keepsOthers h hk⟩
  | deleteAll inst ueId =>
    obtain rfl := Option.some.inj hop
    have hmoved := moved_deleteAll s inst ueId
    exact ⟨hmoved.linked h, fun k hk => hmoved.keepsOthers h hk⟩

theorem Linked.recreates {op : TunnelOp} (h : s.Linked) (hop : s.op op = some s')
    (hre : s.Recreates op) :
    ¬ s'.Inverse := by
  cases op with
  | create r =>
    obtain ⟨⟨teid, t⟩, hcreate, rfl⟩ := Option.map_eq_some_iff.mp hop
    rcases created_of_newGtpuCreateTunnel hcreate with ⟨-, hnone⟩ | hcreated
    · change (s.tunnel (s.requestKey r)).isSome at hre
      rw [hnone] at hre
      exact Bool.noConfusion hre
    · exact hcreated.not_inverse h hre
  | deleteOne inst ueId rbId => exact hre.elim
  | deleteAll inst ueId => exact hre.elim

/-- Instances without tunnels. -/
structure Initial (s : GtpEndPoints) : Prop where
  noTunnel : ∀ k, s.tunnel k = none
  noTeid : ∀ teid, s.te2ueMapping.lookup teid = none

theorem Initial.linked (h : s.Initial) : s.Linked := by
  have hnone : ∀ k teid, ¬ s.Owns k teid := by
    rintro k teid ⟨bearer, hbearer, -⟩
    rw [h.noTunnel] at hbearer
    exact absurd hbearer (Option.some_ne_none _).symm
  refine ⟨fun teid data hdata => ?_, fun k teid hk => absurd hk (hnone k teid),
    fun k _ teid hk => absurd hk (hnone k teid)⟩
  rw [h.noTeid] at hdata
  exact absurd hdata (Option.some_ne_none _).symm

end GtpEndPoints

/-! ### Runs -/

open GtpEndPoints

/-- A run of operations that return. -/
abbrev TunnelRun (s₀ : GtpEndPoints) : List TunnelOp → GtpEndPoints → Prop :=
  Reach (fun op s s' => s.op op = some s') (· = s₀)

/-- All along a run the tables are inverse, and every operation keeps to its tunnels. -/
def KeepsTables (s₀ : GtpEndPoints) (ops : List TunnelOp) : Prop :=
  (∀ pre s, pre <+: ops → TunnelRun s₀ pre s → s.Inverse) ∧
    ∀ pre op s s', pre ++ [op] <+: ops → TunnelRun s₀ pre s → s.op op = some s' →
      KeepsOthers op s s'

/-- The tables stay inverse, and other tunnels in place, exactly as long as no request is for a
tunnel that exists. -/
theorem keepsTables_iff (s₀ : GtpEndPoints) (hinit : s₀.Initial) (ops : List TunnelOp) :
    KeepsTables s₀ ops ↔
      ∀ pre op s s', pre ++ [op] <+: ops → TunnelRun s₀ pre s → s.op op = some s' →
        ¬ s.Recreates op := by
  have hiff : ∀ P : GtpEndPoints → Prop, (∀ s, s.Linked → P s) → (∀ s, P s → s.Inverse) →
      ((∀ pre s, pre <+: ops → TunnelRun s₀ pre s → P s) ↔
        ∀ pre op s s', pre ++ [op] <+: ops → TunnelRun s₀ pre s → s.op op = some s' →
          ¬ s.Recreates op) := by
    intro P hP hP'
    apply Reach.forall_prefix_iff (I := Linked) (B := fun op s => s.Recreates op)
    · rintro s rfl
      exact hinit.linked
    · exact hP
    · exact fun op s s' h hop hnew => (h.op hop hnew).1
    · exact fun op s s' h hop hre hPs => h.recreates hop hre (hP' s' hPs)
  constructor
  · exact fun h => (hiff Inverse (fun s h => h.inverse) fun s h => h).mp h.1
  · intro hclean
    have hlinked := (hiff Linked (fun s h => h) fun s h => h.inverse).mpr hclean
    refine ⟨fun pre s hpre hrun => (hlinked pre s hpre hrun).inverse, ?_⟩
    intro pre op s s' hpre hrun hop
    have hs := hlinked pre s ((List.prefix_append _ _).trans hpre) hrun
    exact (hs.op hop (hclean pre op s s' hpre hrun hop)).2

/-- One instance, without tunnels. -/
def oneInstance : GtpEndPoints := ⟨(∅ : AList fun _ : ℤ => GtpEndPoint).insert 5 ⟨2152, ∅⟩, ∅, 5⟩

theorem initial_oneInstance : oneInstance.Initial := by
  constructor
  · rintro ⟨i, u, b⟩
    rw [tunnel, oneInstance]
    by_cases hi : i = 5
    · subst hi
      rw [AList.lookup_insert]
      rfl
    · rw [AList.lookup_insert_ne hi]
      rfl
  · exact fun teid => rfl

/-- A tunnel of UE 1 for the bearer 1. -/
def firstTunnel (teid : UInt32) : CreateRequest :=
  ⟨5, 1, 1, 1, 7, ⟨32, [10, 0, 0, 1]⟩, some 0, none, [teid]⟩

/-- A tunnel is created and deleted. -/
theorem keepsTables_delete :
    KeepsTables oneInstance [.create (firstTunnel 100), .deleteOne 5 1 1] := by
  apply (keepsTables_iff oneInstance initial_oneInstance _).mpr
  intro pre op s s' hpre hrun _
  cases op with
  | create r =>
    obtain ⟨post, hpost⟩ := hpre
    cases pre with
    | nil =>
      have hs : s = oneInstance := by
        generalize hnil : ([] : List TunnelOp) = tr at hrun
        cases hrun with
        | start hs => exact hs
        | step _ _ => simp at hnil
      obtain rfl := TunnelOp.create.inj (List.cons.inj hpost).1
      rw [hs, Recreates, initial_oneInstance.noTunnel]
      exact Bool.false_ne_true
    | cons first pre =>
      have hrest : pre ++ [.create r] ++ post = [.deleteOne 5 1 1] := (List.cons.inj hpost).2
      have hmem : TunnelOp.create r ∈ [TunnelOp.deleteOne 5 1 1] := by
        rw [← hrest]
        simp
      exact absurd (List.mem_singleton.mp hmem) TunnelOp.noConfusion
  | deleteOne inst ueId rbId => exact id
  | deleteAll inst ueId => exact id

/-- The tables stay inverse, and other tunnels in place, in all runs. -/
def TablesKept : Prop := ∀ s₀ ops, GtpEndPoints.Initial s₀ → KeepsTables s₀ ops

/-- A tunnel is created twice: its first TEID stays in use. -/
theorem not_tablesKept : ¬ TablesKept := by
  intro h
  have hruns : ((oneInstance.op (.create (firstTunnel 100))).bind
      fun s => s.op (.create (firstTunnel 101))).isSome := by
    decide
  obtain ⟨s', hs'⟩ := Option.isSome_iff_exists.mp hruns
  obtain ⟨s, hfirst, hsecond⟩ := Option.bind_eq_some_iff.mp hs'
  have hrun : TunnelRun oneInstance [.create (firstTunnel 100)] s := .first rfl hfirst
  have hlinked : s.Linked := by
    apply (initial_oneInstance.linked.op hfirst _).1
    rw [Recreates, initial_oneInstance.noTunnel]
    exact Bool.false_ne_true
  have hexists : s.Recreates (.create (firstTunnel 101)) := by
    have hnew : ((oneInstance.op (.create (firstTunnel 100))).bind
        fun s => s.tunnel ⟨5, 1, 1⟩).isSome := by
      decide
    rw [hfirst] at hnew
    exact hnew
  refine hlinked.recreates hsecond hexists ?_
  exact (h oneInstance _ initial_oneInstance).1 _ s' (List.prefix_refl _) (hrun.step hsecond)

end LlmHric.Gtpu
