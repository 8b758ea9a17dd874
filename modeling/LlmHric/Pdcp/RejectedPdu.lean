import LlmHric.Library.TracedReads
import LlmHric.Pdcp.CountInference
import LlmHric.Pdcp.StoredSize
import Mathlib.Logic.Function.Basic

/-! `nr_pdcp_entity_recv_pdu` gets the size of a PDU, and the memory it stands in. It takes the
sequence number out of the header before it compares the size with what a PDU needs. Here its reads
are recorded, with the memory behind the PDU in place; what it does to the entity is what `recvPdu`
does. -/

namespace LlmHric.Pdcp

open Checked Checked.Outcome

/-- Why a PDU is rejected. -/
inductive Rejection
  | suspended
  | noBytes
  | tooShort
  | integrityFailed
  | delivered
  | inList
  deriving DecidableEq

/-- The statistics of received PDUs. -/
structure PdcpRxStats where
  rxpduPkts : UInt32
  rxpduBytes : UInt32
  rxpduSn : UInt32
  rxpduDdPkts : UInt32
  rxpduDdBytes : UInt32
  deriving DecidableEq

/-- A PDU is counted. -/
def PdcpRxStats.receive (stats : PdcpRxStats) (size : ℕ) : PdcpRxStats :=
  { stats with
    rxpduPkts := stats.rxpduPkts + 1
    rxpduBytes := stats.rxpduBytes + .ofNat size }

/-- A PDU is counted as discarded. -/
def PdcpRxStats.discard (stats : PdcpRxStats) (size : ℕ) : PdcpRxStats :=
  { stats with
    rxpduDdPkts := stats.rxpduDdPkts + 1
    rxpduDdBytes := stats.rxpduDdBytes + .ofNat size }

/-- What `nr_pdcp_entity_recv_pdu` leaves. -/
structure Received where
  rejection : Option Rejection
  entity : PdcpEntity
  stats : PdcpRxStats

namespace PdcpEntity

/-! ### Reception from memory -/

def setDataBitIn (e : PdcpEntity) (mem : ℕ → UInt8) : Traced (ℕ → UInt8) :=
  if e.cfg.entityType ≠ .srb then do
    let b ← readMemory mem 0
    return if b &&& 0x80 = 0 then Function.update mem 0 (b ||| 128) else mem
  else return mem

/-- `rcvd_sn` is read from memory. -/
def readSn (e : PdcpEntity) (mem : ℕ → UInt8) : Traced ℕ :=
  match e.cfg.snSize with
  | .shortSn => do
    let b₀ ← readMemory mem 0
    let b₁ ← readMemory mem 1
    return (b₀.toNat &&& 0xf) <<< 8 ||| b₁.toNat
  | .longSn => do
    let b₀ ← readMemory mem 0
    let b₁ ← readMemory mem 1
    let b₂ ← readMemory mem 2
    return (b₀.toNat &&& 0x3) <<< 16 ||| b₁.toNat <<< 8 ||| b₂.toNat

/-- The MAC-I and the header are stored for RRC. -/
def readIntegrityData (e : PdcpEntity) (mem : ℕ → UInt8) (size : ℕ) (count : UInt32) :
    Traced IntegrityData :=
  if e.integrity.isSome ∨ e.cfg.entityType = .srb then do
    let mac ← readRange mem (size - 4) 4
    let header ← readRange mem 0 e.cfg.snSize.headerSize
    return ⟨count, mac, header⟩
  else return ⟨0, [0, 0, 0, 0], []⟩

/-- The PDU is deciphered in its place. -/
def decipherIn (f : SecurityFunctions) (e : PdcpEntity) (mem : ℕ → UInt8) (size : ℕ)
    (count : UInt32) : Traced (ℕ → UInt8) :=
  match e.ciphering with
  | none => return mem
  | some ctx => do
    let clear := e.clearSize e.cfg.hasSdapRx
    let text ← readRange mem clear (size - clear)
    let plain := f.cipher ctx text e.cfg.rbId count (if e.cfg.isGnb then 0 else 1)
    return fun i => if clear ≤ i ∧ i < size then plain.getD (i - clear) 0 else mem i

/-- The MAC-I is compared with the one that is computed. -/
def integrityPassesIn (f : SecurityFunctions) (e : PdcpEntity) (mem : ℕ → UInt8) (size : ℕ)
    (count : UInt32) : Traced Bool :=
  match e.integrity with
  | none => return true
  | some ctx => do
    let text ← readRange mem 0 (size - e.integritySize)
    let mac ← readRange mem (size - e.integritySize) pdcpIntegritySize
    return (f.integrity ctx text e.cfg.rbId count (if e.cfg.isGnb then 0 else 1)).toList == mac

/-- What is done behind the check of the size. -/
def recvChecked (f : SecurityFunctions) (e : PdcpEntity) (stats : PdcpRxStats) (mem : ℕ → UInt8)
    (size : ℕ) (count : UInt32) : Traced Received := do
  let msgIntegrity ← e.readIntegrityData mem size count
  let mem ← e.decipherIn f mem size count
  let passes ← e.integrityPassesIn f mem size count
  if passes = false then return ⟨some .integrityFailed, e, stats.discard size⟩
  else if count < e.rxDeliv then return ⟨some .delivered, e, stats.discard size⟩
  else if sduInList count e.rxList then return ⟨some .inList, e, stats.discard size⟩
  else
    let buffer ← readRange mem e.cfg.snSize.headerSize
      (size - e.cfg.snSize.headerSize - e.integritySize)
    return ⟨none, e.acceptSdu ⟨count, buffer, msgIntegrity⟩ size, stats⟩

/-- What is done with a PDU that has bytes. -/
def recvBytes (f : SecurityFunctions) (e : PdcpEntity) (stats : PdcpRxStats) (mem : ℕ → UInt8)
    (size : ℕ) : Traced Received := do
  let mem ← e.setDataBitIn mem
  let rcvdSn ← e.readSn mem
  let stats := { stats.receive size with rxpduSn := .ofNat rcvdSn }
  if size < e.clearSize e.cfg.hasSdapRx + e.integritySize + 1 then
    return ⟨some .tooShort, e, stats.discard size⟩
  else e.recvChecked f stats mem size (e.rcvdCount rcvdSn)

/-- `nr_pdcp_entity_recv_pdu`, for a PDU of some size at the start of memory. -/
def recvPduIn (f : SecurityFunctions) (e : PdcpEntity) (stats : PdcpRxStats) (mem : ℕ → UInt8)
    (size : ℤ) : Traced Received :=
  if e.entitySuspended then return ⟨some .suspended, e, stats⟩
  else if size < 1 then return ⟨some .noBytes, e, stats⟩
  else e.recvBytes f stats mem size.toNat

/-- What the receiver of an entity has, and what it has delivered, is as before. -/
structure SameReceiver (e e' : PdcpEntity) : Prop where
  rxList : e'.rxList = e.rxList
  rxSize : e'.rxSize = e.rxSize
  rxNext : e'.rxNext = e.rxNext
  rxDeliv : e'.rxDeliv = e.rxDeliv
  rxReord : e'.rxReord = e.rxReord
  tReorderingStart : e'.tReorderingStart = e.tReorderingStart
  delivered : e'.delivered = e.delivered

/-- A PDU that is rejected leaves the receiver as it is, and is not read beyond its size. -/
def RejectsCleanly (f : SecurityFunctions) (e : PdcpEntity) (stats : PdcpRxStats)
    (mem : ℕ → UInt8) (size : ℤ) : Prop :=
  ∀ r, (e.recvPduIn f stats mem size).outcome = .done r → r.rejection ≠ none →
    SameReceiver e r.entity ∧ ∀ i : ℕ, i ∈ (e.recvPduIn f stats mem size).reads → (i : ℤ) < size

variable {e : PdcpEntity} {f : SecurityFunctions} {stats : PdcpRxStats} {mem : ℕ → UInt8}
  {size : ℕ} {count : UInt32}

theorem setDataBitIn_spec (hsize : 1 ≤ size) :
    ∃ mem', (e.setDataBitIn mem).outcome = .done mem' ∧
      bytesAt mem' 0 size = e.setDataBit (bytesAt mem 0 size) := by
  obtain ⟨n, rfl⟩ := Nat.exists_eq_succ_of_ne_zero (Nat.one_le_iff_ne_zero.mp hsize)
  have hcons : ∀ m : ℕ → UInt8, bytesAt m 0 (n + 1) = m 0 :: bytesAt m 1 n := fun m => rfl
  rw [setDataBitIn, hcons mem, setDataBit]
  by_cases htype : e.cfg.entityType ≠ .srb
  · rw [if_pos htype]
    refine ⟨_, rfl, ?_⟩
    by_cases hbit : mem 0 &&& 0x80 = 0
    · rw [if_pos hbit, if_pos ⟨htype, hbit⟩, hcons, Function.update_self]
      congr 1
      apply bytesAt_congr
      intro i hi _
      exact Function.update_of_ne (by omega) _ _
    · rw [if_neg hbit, if_neg fun h => hbit h.2, hcons]
  · rw [if_neg htype, if_neg fun h => htype h.1, ← hcons]
    exact ⟨mem, rfl, rfl⟩

theorem readSn_spec (mem : ℕ → UInt8) :
    ∃ sn, (e.readSn mem).outcome = .done sn ∧
      (e.cfg.snSize.headerSize ≤ size → sn = e.rcvdSn (bytesAt mem 0 size)) := by
  rw [readSn, rcvdSn]
  cases hsn : e.cfg.snSize with
  | shortSn =>
    refine ⟨_, rfl, fun hsize => ?_⟩
    rw [SnSize.headerSize] at hsize
    dsimp only
    rw [getD_bytesAt (by omega), getD_bytesAt (by omega)]
  | longSn =>
    refine ⟨_, rfl, fun hsize => ?_⟩
    rw [SnSize.headerSize] at hsize
    dsimp only
    rw [getD_bytesAt (by omega), getD_bytesAt (by omega), getD_bytesAt (by omega)]

/-- The whole header is read. -/
theorem mem_reads_readSn (mem : ℕ → UInt8) {i : ℕ} :
    i ∈ (e.readSn mem).reads ↔ i < e.cfg.snSize.headerSize := by
  rw [readSn]
  cases e.cfg.snSize with
  | shortSn =>
    change i ∈ [0, 1] ↔ i < 2
    simp only [List.mem_cons, List.not_mem_nil, or_false]
    omega
  | longSn =>
    change i ∈ [0, 1, 2] ↔ i < 3
    simp only [List.mem_cons, List.not_mem_nil, or_false]
    omega

theorem within_setDataBitIn (hsize : 1 ≤ size) : Traced.Within 0 size (e.setDataBitIn mem) := by
  rw [setDataBitIn]
  split_ifs
  · apply Traced.Within.bind (within_readMemory (Nat.le_refl _) hsize)
    intro _ _
    exact .pure _ _ _
  · exact .pure _ _ _

/-! ### What is done behind the check of the size -/

theorem readIntegrityData_spec (hheader : e.cfg.snSize.headerSize ≤ size)
    (hsize : e.integritySize ≤ size) :
    (e.readIntegrityData mem size count).outcome =
      .done (e.integrityData (bytesAt mem 0 size) count) := by
  rw [readIntegrityData, integrityData]
  by_cases hintegrity : e.integrity.isSome ∨ e.cfg.entityType = .srb
  · rw [integritySize, if_pos hintegrity, pdcpIntegritySize] at hsize
    rw [if_pos hintegrity, if_pos hintegrity, take_bytesAt hheader, drop_bytesAt, length_bytesAt,
      Nat.zero_add, Nat.sub_sub_self hsize]
    rfl
  · rw [if_neg hintegrity, if_neg hintegrity]
    rfl

theorem decipherIn_spec (hclear : e.clearSize e.cfg.hasSdapRx ≤ size) :
    ∃ mem', (e.decipherIn f mem size count).outcome = .done mem' ∧
      bytesAt mem' 0 size = e.decipher f (bytesAt mem 0 size) count := by
  rw [decipherIn, decipher]
  cases e.ciphering with
  | none => exact ⟨mem, rfl, rfl⟩
  | some ctx =>
    refine ⟨_, rfl, ?_⟩
    obtain ⟨clear, hclear'⟩ : ∃ clear, clear = e.clearSize e.cfg.hasSdapRx := ⟨_, rfl⟩
    rw [← hclear'] at hclear ⊢
    dsimp only
    rw [take_bytesAt hclear, drop_bytesAt, Nat.zero_add]
    obtain ⟨plain, hplain⟩ : ∃ plain, plain = f.cipher ctx (bytesAt mem clear (size - clear))
      e.cfg.rbId count (if e.cfg.isGnb then 0 else 1) := ⟨_, rfl⟩
    have hlength : plain.length = size - clear := by
      rw [hplain, f.length_cipher, length_bytesAt]
    rw [← hplain]
    have hsplit := @bytesAt_append (fun i => if clear ≤ i ∧ i < size then plain.getD (i - clear) 0
      else mem i) 0 clear (size - clear)
    rw [Nat.zero_add, Nat.add_sub_cancel' hclear] at hsplit
    rw [← hsplit]
    congr 1
    · apply bytesAt_congr
      intro i _ hi
      rw [if_neg (by omega)]
    · apply List.ext_getElem (by rw [length_bytesAt, hlength])
      intro i hi hi'
      rw [length_bytesAt] at hi
      simp only [bytesAt, List.getElem_map, List.getElem_range']
      rw [if_pos (by omega), Nat.one_mul, Nat.add_sub_cancel_left, List.getD_eq_getElem _ _ hi']

theorem integrityPassesIn_spec (hsize : e.integritySize ≤ size) :
    (e.integrityPassesIn f mem size count).outcome =
      .done (e.integrityPasses f (bytesAt mem 0 size) count) := by
  rw [integrityPassesIn, integrityPasses]
  cases hintegrity : e.integrity with
  | none => rfl
  | some ctx =>
    have hmac : e.integritySize = pdcpIntegritySize := by
      rw [integritySize, hintegrity]
      rfl
    dsimp only
    rw [length_bytesAt, take_bytesAt (Nat.sub_le _ _), drop_bytesAt, Nat.zero_add,
      Nat.sub_sub_self hsize, ← hmac]
    rfl

/-- Behind the check of the size, what is left is what `checkedSdu` says. -/
theorem recvChecked_spec
    (hsize : e.clearSize e.cfg.hasSdapRx + e.integritySize + 1 ≤ size) :
    ∃ r, (e.recvChecked f stats mem size count).outcome = .done r ∧
      match e.checkedSdu f (bytesAt mem 0 size) count with
      | none => r.rejection ≠ none ∧ r.entity = e
      | some sdu => r.rejection = none ∧ r.entity = e.acceptSdu sdu size := by
  have hheader : e.cfg.snSize.headerSize ≤ e.clearSize e.cfg.hasSdapRx := Nat.le_add_right _ _
  obtain ⟨mem', hdecipher, hbytes⟩ := @decipherIn_spec e f mem size count (by omega)
  rw [recvChecked, Traced.outcome_bind, readIntegrityData_spec (by omega) (by omega),
    Outcome.done_bind,
    Traced.outcome_bind, hdecipher, Outcome.done_bind, Traced.outcome_bind,
    integrityPassesIn_spec (by omega), Outcome.done_bind, hbytes, checkedSdu]
  by_cases hpasses : e.integrityPasses f (e.decipher f (bytesAt mem 0 size) count) count = false
  · rw [if_pos hpasses, if_pos hpasses]
    exact ⟨_, rfl, by simp, rfl⟩
  · rw [if_neg hpasses, if_neg hpasses]
    by_cases hold : count < e.rxDeliv
    · rw [if_pos hold, if_pos (.inl hold)]
      exact ⟨_, rfl, by simp, rfl⟩
    · rw [if_neg hold]
      by_cases hlist : sduInList count e.rxList = true
      · rw [if_pos hlist, if_pos (.inr hlist)]
        exact ⟨_, rfl, by simp, rfl⟩
      · rw [if_neg hlist, if_neg (by tauto), ← hbytes, length_bytesAt, drop_bytesAt,
          take_bytesAt (by omega), Nat.zero_add]
        exact ⟨_, rfl, rfl, rfl⟩

theorem within_recvChecked
    (hsize : e.clearSize e.cfg.hasSdapRx + e.integritySize + 1 ≤ size) :
    Traced.Within 0 size (e.recvChecked f stats mem size count) := by
  have hheader : e.cfg.snSize.headerSize ≤ e.clearSize e.cfg.hasSdapRx := Nat.le_add_right _ _
  rw [recvChecked]
  apply Traced.Within.bind
  · rw [readIntegrityData]
    split_ifs with hintegrity
    · have hmac : e.integritySize = 4 := if_pos hintegrity
      apply Traced.Within.bind (within_readRange (Nat.zero_le _) (by omega))
      intro _ _
      apply Traced.Within.bind (within_readRange (Nat.zero_le _) (by omega))
      exact fun _ _ => .pure _ _ _
    · exact .pure _ _ _
  · intro msgIntegrity _
    apply Traced.Within.bind
    · rw [decipherIn]
      split
      · exact .pure _ _ _
      · apply Traced.Within.bind (within_readRange (Nat.zero_le _) (by omega))
        exact fun _ _ => .pure _ _ _
    · intro mem' _
      apply Traced.Within.bind
      · rw [integrityPassesIn]
        split
        · exact .pure _ _ _
        · rename_i ctx hintegrity
          have hmac : e.integritySize = pdcpIntegritySize := by
            rw [integritySize, hintegrity]
            rfl
          apply Traced.Within.bind (within_readRange (Nat.zero_le _) (by omega))
          intro _ _
          apply Traced.Within.bind (within_readRange (Nat.zero_le _) (by omega))
          exact fun _ _ => .pure _ _ _
      · intro passes _
        split_ifs
        · exact .pure _ _ _
        · exact .pure _ _ _
        · exact .pure _ _ _
        · apply Traced.Within.bind (within_readRange (Nat.zero_le _) (by omega))
          exact fun _ _ => .pure _ _ _

/-! ### The whole call -/

theorem recvBytes_spec (mem : ℕ → UInt8) (hsuspended : ¬ e.entitySuspended = true)
    (hsize : 1 ≤ size) :
    ∃ r, (e.recvBytes f stats mem size).outcome = .done r ∧
      r.entity = e.recvPdu f (bytesAt mem 0 size) ∧
      (r.rejection ≠ none ↔ e.receivedSdu f (bytesAt mem 0 size) = none) := by
  obtain ⟨mem', hbit, hbytes⟩ := @setDataBitIn_spec e mem size hsize
  obtain ⟨sn, hread, hsn⟩ := @readSn_spec e size mem'
  rw [recvBytes, Traced.outcome_bind, hbit, Outcome.done_bind, Traced.outcome_bind, hread,
    Outcome.done_bind, recvPdu, receivedSdu, if_neg hsuspended, length_bytesAt,
    if_neg (Nat.not_lt.mpr hsize)]
  by_cases hshort : size < e.clearSize e.cfg.hasSdapRx + e.integritySize + 1
  · rw [if_pos hshort, if_pos hshort]
    exact ⟨_, rfl, rfl, by simp⟩
  · rw [if_neg hshort, if_neg hshort]
    have hheader : e.cfg.snSize.headerSize ≤ e.clearSize e.cfg.hasSdapRx := Nat.le_add_right _ _
    rw [hsn (by omega), ← hbytes]
    obtain ⟨r, hr, hspec⟩ := @recvChecked_spec e f
      { stats.receive size with rxpduSn := .ofNat (e.rcvdSn (bytesAt mem' 0 size)) } mem' size
      (e.rcvdCount (e.rcvdSn (bytesAt mem' 0 size))) (by omega)
    refine ⟨r, hr, ?_⟩
    cases hsdu : e.checkedSdu f (bytesAt mem' 0 size) (e.rcvdCount (e.rcvdSn (bytesAt mem' 0 size)))
    · rw [hsdu] at hspec
      exact ⟨hspec.2, fun _ => rfl, fun _ => hspec.1⟩
    · rw [hsdu] at hspec
      exact ⟨hspec.2, fun h => absurd hspec.1 h, fun h => by cases h⟩

/-- The entity that is left is that of `recvPdu`, whatever is behind the PDU in memory. -/
theorem recvPduIn_refines (f : SecurityFunctions) (e : PdcpEntity) (stats : PdcpRxStats)
    (mem : ℕ → UInt8) (size : ℤ) :
    ∃ r, (e.recvPduIn f stats mem size).outcome = .done r ∧
      r.entity = e.recvPdu f (bytesAt mem 0 size.toNat) ∧
      (r.rejection ≠ none ↔ e.receivedSdu f (bytesAt mem 0 size.toNat) = none) := by
  rw [recvPduIn]
  by_cases hsuspended : e.entitySuspended = true
  · rw [if_pos hsuspended, recvPdu, receivedSdu, if_pos hsuspended]
    exact ⟨_, rfl, rfl, by simp⟩
  · rw [if_neg hsuspended]
    by_cases hbytes : size < 1
    · rw [if_pos hbytes, recvPdu, receivedSdu, if_neg hsuspended, length_bytesAt,
        if_pos (by omega)]
      exact ⟨_, rfl, rfl, by simp⟩
    · rw [if_neg hbytes]
      exact recvBytes_spec mem hsuspended (by omega)

/-- A PDU that is shorter than its header is rejected. -/
theorem receivedSdu_of_short {buffer : List UInt8}
    (hshort : buffer.length < e.cfg.snSize.headerSize) : e.receivedSdu f buffer = none := by
  have hheader : e.cfg.snSize.headerSize ≤ e.clearSize e.cfg.hasSdapRx := Nat.le_add_right _ _
  rw [receivedSdu]
  split_ifs
  · rfl
  · rfl
  · rfl
  · omega

/-- The header is read before the size is checked. -/
theorem mem_reads_recvBytes {i : ℕ} (hsize : 1 ≤ size) (hi : i < e.cfg.snSize.headerSize) :
    i ∈ (e.recvBytes f stats mem size).reads := by
  obtain ⟨mem', hbit, -⟩ := @setDataBitIn_spec e mem size hsize
  refine Traced.mem_reads_bind.mpr (.inr ⟨mem', hbit, ?_⟩)
  exact Traced.mem_reads_bind.mpr (.inl ((mem_reads_readSn mem').mpr hi))

/-- A PDU that has its header is read in its bounds. -/
theorem within_recvBytes (hsize : 1 ≤ size) (hheader : e.cfg.snSize.headerSize ≤ size) :
    Traced.Within 0 size (e.recvBytes f stats mem size) := by
  apply Traced.Within.bind (within_setDataBitIn hsize)
  intro mem' _
  apply Traced.Within.bind
  · intro i hi
    exact ⟨Nat.zero_le _, Nat.lt_of_lt_of_le ((mem_reads_readSn mem').mp hi) hheader⟩
  · intro sn _
    dsimp only
    split_ifs with hshort
    · exact .pure _ _ _
    · exact within_recvChecked (Nat.not_lt.mp hshort)

/-- A PDU is rejected cleanly exactly when the entity is suspended, or it has no bytes, or at least
those of a header. -/
theorem rejectsCleanly_iff (f : SecurityFunctions) (e : PdcpEntity) (stats : PdcpRxStats)
    (mem : ℕ → UInt8) (size : ℤ) :
    e.RejectsCleanly f stats mem size ↔
      e.entitySuspended = true ∨ size < 1 ∨ (e.cfg.snSize.headerSize : ℤ) ≤ size := by
  obtain ⟨r, hr, hentity, hreject⟩ := recvPduIn_refines f e stats mem size
  constructor
  · intro hclean
    by_contra hnot
    obtain ⟨hsuspended, hbytes, hheader⟩ : ¬ e.entitySuspended = true ∧ ¬ size < 1 ∧
        ¬ (e.cfg.snSize.headerSize : ℤ) ≤ size := by tauto
    have hnone : e.receivedSdu f (bytesAt mem 0 size.toNat) = none := by
      apply receivedSdu_of_short
      rw [length_bytesAt]
      omega
    have hpos : 0 < e.cfg.snSize.headerSize := by omega
    have hread : e.cfg.snSize.headerSize - 1 ∈ (e.recvPduIn f stats mem size).reads := by
      rw [recvPduIn, if_neg hsuspended, if_neg hbytes]
      exact mem_reads_recvBytes (by omega) (by omega)
    have hlt := (hclean r hr (hreject.mpr hnone)).2 _ hread
    omega
  · intro hcond r' hr' hrejected
    obtain rfl : r = r' := Outcome.done.inj (hr.symm.trans hr')
    have hsame : r.entity = e := by
      rw [hentity, recvPdu, hreject.mp hrejected]
    refine ⟨hsame ▸ ⟨rfl, rfl, rfl, rfl, rfl, rfl, rfl⟩, ?_⟩
    intro i hi
    rw [recvPduIn] at hi
    split_ifs at hi with hsuspended hbytes
    · cases hi
    · cases hi
    · have hheader : (e.cfg.snSize.headerSize : ℤ) ≤ size := by tauto
      have hlt := (within_recvBytes (by omega) (by omega) i hi).2
      omega

/-- The entity of a signalling radio bearer, without security. -/
def plainSrb : PdcpEntity := .new ⟨.srb, true, 1, false, false, .shortSn, none⟩ ⟨.off, .off, [], []⟩

/-- Of a PDU of one byte, the byte behind it is read for the sequence number. -/
theorem not_alwaysRejectsCleanly :
    ¬ ∀ f e stats mem size, RejectsCleanly f e stats mem size := by
  intro hall
  have hclean := hall plainFunctions plainSrb ⟨0, 0, 0, 0, 0⟩ (fun _ => 0) 1
  have hlt := (hclean _ rfl (by simp)).2 1 (by decide)
  exact absurd hlt (by decide)

end PdcpEntity

end LlmHric.Pdcp
