import LlmHric.Rlc.ReceiveWindow
import LlmHric.Rlc.TransmitSteps
import LlmHric.Rlc.UmReassembly

/-! SDUs have numbers without bound, of which a PDU has the sequence number, and each segment is a
part of its SDU. As long as no PDU is a window or more away from `rx_next`, the entity delivers each
SDU at most once and as it was, in any order, and `rx_next` passes only SDUs that have been
delivered. -/

namespace LlmHric.Rlc

/-! ### Segments of an SDU -/

variable {data : List UInt8} {l : List Pdu} {pdu : Pdu}

/-- The place of a segment in an SDU. -/
structure InSdu (data : List UInt8) (pdu : Pdu) : Prop where
  size_pos : 0 < pdu.size
  stop : pdu.so + pdu.size ≤ data.length
  isLast_iff : pdu.isLast = true ↔ pdu.so + pdu.size = data.length

/-- A segment has bytes of an SDU, and says whether they are the last ones. -/
structure IsSegment (data : List UInt8) (pdu : Pdu) : Prop extends
  IsPart data pdu, InSdu data pdu

theorem InSdu.processed (h : InSdu data pdu) : InSdu data pdu.processed :=
  ⟨h.size_pos, h.stop, h.isLast_iff⟩

theorem fullFrom_processed (lastByte : ℤ) (l : List Pdu) :
    fullFrom lastByte (l.map Pdu.processed) = fullFrom lastByte l := by
  induction l generalizing lastByte with
  | nil => rfl
  | cons pdu l ih =>
    rw [List.map_cons, fullFrom, fullFrom, ih]
    rfl

theorem segmentAlreadyReceived_of_nonpos {so size : ℤ} (h : size ≤ 0) (l : List Pdu) :
    segmentAlreadyReceived so size l = true := by
  cases l with
  | nil => exact decide_eq_true h
  | cons pdu l => rw [segmentAlreadyReceived, if_pos h]

/-- Each byte that is still to be found lies behind those that the segments so far have. -/
theorem alreadyReceived_of_fullFrom {lastByte so size : ℤ} (hl : ∀ pdu ∈ l, InSdu data pdu)
    (hfull : fullFrom lastByte l = true) (hso : lastByte < so) (hstop : so + size ≤ data.length) :
    segmentAlreadyReceived so size l = true := by
  induction l generalizing lastByte so size with
  | nil => cases hfull
  | cons pdu l ih =>
    rw [List.forall_mem_cons] at hl
    obtain ⟨⟨hpos, hend, hlast⟩, hl⟩ := hl
    replace hlast := hlast.mp
    rw [fullFrom] at hfull
    rw [segmentAlreadyReceived]
    by_cases hsize : size ≤ 0
    · rw [if_pos hsize]
    · rw [if_neg hsize]
      split_ifs at hfull with hgap hlastSegment hmore
      · have hstart : (pdu.so : ℤ) ≤ so ∧ so < pdu.so + pdu.size := by
          have := hlast hlastSegment
          omega
        rw [if_pos hstart]
        exact segmentAlreadyReceived_of_nonpos (by have := hlast hlastSegment; omega) l
      · by_cases hstart : (pdu.so : ℤ) ≤ so ∧ so < pdu.so + pdu.size
        · rw [if_pos hstart]
          exact ih hl hfull (by omega) (by omega)
        · rw [if_neg hstart, if_neg (by omega)]
          exact ih hl hfull (by omega) hstop
      · rw [if_neg (by omega), if_neg (by omega)]
        exact ih hl hfull hso hstop

/-- Segments that have all bytes behind some place are full from there on. -/
theorem fullFrom_of_covers {lastByte : ℤ} (hsorted : l.Pairwise fun a b => a.so ≤ b.so)
    (hl : ∀ pdu ∈ l, InSdu data pdu) (hlast : -1 ≤ lastByte) (hmore : lastByte + 1 < data.length)
    (hcover : ∀ b : ℕ, lastByte < b → b < data.length →
      ∃ pdu ∈ l, pdu.so ≤ b ∧ b < pdu.so + pdu.size) : fullFrom lastByte l = true := by
  obtain ⟨next, hnext⟩ : ∃ next : ℕ, (next : ℤ) = lastByte + 1 := ⟨(lastByte + 1).toNat, by omega⟩
  induction l generalizing lastByte next with
  | nil =>
    obtain ⟨pdu, hpdu, -⟩ := hcover next (by omega) (by omega)
    cases hpdu
  | cons pdu l ih =>
    rw [List.pairwise_cons] at hsorted
    rw [List.forall_mem_cons] at hl
    obtain ⟨⟨hpos, hend, hisLast⟩, hl⟩ := hl
    have hso : (pdu.so : ℤ) ≤ lastByte + 1 := by
      obtain ⟨s, hs, hle, -⟩ := hcover next (by omega) (by omega)
      rcases List.mem_cons.mp hs with rfl | hs
      · omega
      · have := hsorted.1 s hs
        omega
    rw [fullFrom, if_neg (by omega)]
    split_ifs with hlastSegment hgrow
    · rfl
    · have hne := mt hisLast.mpr hlastSegment
      refine ih hsorted.2 hl (by omega) (by omega) (fun b hb hlt => ?_) (pdu.so + pdu.size)
        (by push_cast; omega)
      obtain ⟨s, hs, hle, hltEnd⟩ := hcover b (by omega) hlt
      rcases List.mem_cons.mp hs with rfl | hs
      · omega
      · exact ⟨s, hs, hle, hltEnd⟩
    · refine ih hsorted.2 hl hlast hmore (fun b hb hlt => ?_) next hnext
      obtain ⟨s, hs, hle, hltEnd⟩ := hcover b hb hlt
      rcases List.mem_cons.mp hs with rfl | hs
      · omega
      · exact ⟨s, hs, hle, hltEnd⟩

theorem pairwise_insertPdu (h : l.Pairwise fun a b => a.so ≤ b.so) :
    (insertPdu pdu l).Pairwise fun a b => a.so ≤ b.so := by
  induction l with
  | nil => exact List.pairwise_singleton _ _
  | cons cur l ih =>
    obtain ⟨hcur, hl⟩ := List.pairwise_cons.mp h
    rw [insertPdu]
    split_ifs with hlt
    · refine List.pairwise_cons.mpr ⟨fun s hs => ?_, h⟩
      rcases List.mem_cons.mp hs with rfl | hs
      · omega
      · have := hcur s hs
        omega
    · refine List.pairwise_cons.mpr ⟨fun s hs => ?_, ih hl⟩
      rcases mem_insertPdu.mp hs with rfl | hs
      · omega
      · exact hcur s hs

/-- What a slot holds: parts of an SDU in order, and all of it when it has been delivered. -/
structure SlotOf (data : List UInt8) (l : List Pdu) : Prop where
  sorted : l.Pairwise fun a b => a.so ≤ b.so
  place : ∀ pdu ∈ l, InSdu data pdu
  bytes : sduDelivered l = false → ∀ pdu ∈ l, IsPart data pdu
  full : sduDelivered l = true → fullFrom (-1) l = true

namespace SlotOf

theorem nil (data : List UInt8) : SlotOf data [] :=
  ⟨.nil, fun _ h => absurd h List.not_mem_nil, fun _ _ h => absurd h List.not_mem_nil,
    fun h => by cases h⟩

/-- A slot takes another part of its SDU. -/
theorem insertPdu (h : SlotOf data l) (hundelivered : sduDelivered l = false)
    (hsegment : IsSegment data pdu) : SlotOf data (insertPdu pdu l) := by
  have hdata : pdu.data.isSome := by
    rw [hsegment.bytes]
    rfl
  have hstill := AmEntity.sduDelivered_insertPdu hdata hundelivered
  refine ⟨pairwise_insertPdu h.sorted, fun s hs => ?_, fun _ s hs => ?_, fun hdel => ?_⟩
  · rcases mem_insertPdu.mp hs with rfl | hs
    · exact hsegment.toInSdu
    · exact h.place s hs
  · rcases mem_insertPdu.mp hs with rfl | hs
    · exact hsegment.toIsPart
    · exact h.bytes hundelivered s hs
  · rw [hstill] at hdel
    cases hdel

/-- A slot when its SDU is delivered. -/
theorem processed (h : SlotOf data l) (hfull : sduFull l = true) :
    SlotOf data (l.map Pdu.processed) := by
  have hdel := AmEntity.sduDelivered_processed hfull
  refine ⟨List.pairwise_map.mpr h.sorted, fun s hs => ?_, fun hnot => ?_, fun _ => ?_⟩
  · obtain ⟨pdu, hpdu, rfl⟩ := List.mem_map.mp hs
    exact (h.place pdu hpdu).processed
  · rw [hdel] at hnot
    cases hnot
  · rw [fullFrom_processed]
    rw [sduFull, Bool.and_eq_true] at hfull
    exact hfull.2

/-- An SDU that is complete is put together as it was. -/
theorem reassemble (h : SlotOf data l) (hlength : data.length ≤ nrSduMax)
    (hfull : sduFull l = true) : reassembleFrom [] false l = (data, false) := by
  rw [sduFull, Bool.and_eq_true, Bool.not_eq_true'] at hfull
  exact reassembleFrom_full (h.bytes hfull.1) hlength (Nat.zero_le _) (.inr hfull.2)

theorem undelivered_of_accepts (h : SlotOf data l) (hpart : IsPart data pdu)
    (hnew : segmentAlreadyReceived pdu.so pdu.size l = false) : sduDelivered l = false := by
  by_contra hdel
  have hfull := h.full (Bool.eq_true_of_not_eq_false hdel)
  rw [alreadyReceived_of_fullFrom h.place hfull (by omega) (by exact_mod_cast hpart.stop)] at hnew
  cases hnew

/-- An SDU that is complete has a byte. -/
theorem ne_nil (h : SlotOf data l) (hfull : sduFull l = true) : data ≠ [] := by
  cases l with
  | nil => cases hfull
  | cons pdu l =>
    have hplace := h.place pdu (List.mem_cons_self ..)
    have hpos := hplace.size_pos
    have hstop := hplace.stop
    exact List.ne_nil_of_length_pos (by omega)

/-- An SDU that is not complete misses a byte. -/
theorem exists_missing (h : SlotOf data l) (hdata : data ≠ [])
    (hundelivered : sduDelivered l = false) (hfull : sduFull l = false) :
    ∃ b < data.length, ∀ pdu ∈ l, ¬ (pdu.so ≤ b ∧ b < pdu.so + pdu.size) := by
  by_contra hnot
  have hcover : fullFrom (-1) l = true := by
    have hpos := List.length_pos_iff.mpr hdata
    refine fullFrom_of_covers h.sorted h.place le_rfl (by omega) fun b _ hlt => ?_
    by_contra hmissing
    exact hnot ⟨b, hlt, fun pdu hpdu hin => hmissing ⟨pdu, hpdu, hin⟩⟩
  rw [sduFull, hundelivered, hcover] at hfull
  cases hfull

end SlotOf

def Upcall.sdu? : Upcall → Option (List UInt8)
  | .deliverSdu data => some data
  | _ => none

namespace AmEntity

variable {e e' : AmEntity} {s : Segment} {fuel size x : ℕ} {bytes : List UInt8}

/-- The SDUs that an entity has delivered, the latest last. -/
def deliveredSdus (e : AmEntity) : List (List UInt8) := e.upcalls.filterMap Upcall.sdu?

theorem deliveredSdus_congr (h : e'.upcalls = e.upcalls) : e'.deliveredSdus = e.deliveredSdus := by
  rw [deliveredSdus, deliveredSdus, h]

/-- What is known about the SDUs, apart from what is counted. -/
def sduSide (e : AmEntity) : AmConfig × ℕ × ℕ × (ℕ → Option ℕ × List UInt8) :=
  (e.cfg, e.txNext, e.sduCount, fun i => ((e.sdus i).sn, (e.sdus i).data))

/-- What status PDUs leave alone. -/
def statusSide (e : AmEntity) :
    (AmConfig × ℕ × ℕ × (ℕ → Option ℕ × List UInt8)) × List Segment × List (List UInt8) :=
  (e.sduSide, e.txList, e.deliveredSdus)

theorem deliveredSdus_call (e : AmEntity) {c : Upcall} (hc : c.sdu? = none) :
    (e.call c).deliveredSdus = e.deliveredSdus := by
  rw [deliveredSdus, call, List.filterMap_append, deliveredSdus]
  simp [hc]

theorem statusSide_call (e : AmEntity) {c : Upcall} (hc : c.sdu? = none) :
    (e.call c).statusSide = e.statusSide :=
  congrArg (fun l => (e.sduSide, e.txList, l)) (deliveredSdus_call e hc)

theorem statusSide_setSdu {i : ℕ} {sdu : Sdu} (hsn : sdu.sn = (e.sdus i).sn)
    (hdata : sdu.data = (e.sdus i).data) : (e.setSdu i sdu).statusSide = e.statusSide := by
  have hsdus : ∀ j, ((Function.update e.sdus i sdu j).sn, (Function.update e.sdus i sdu j).data) =
      ((e.sdus j).sn, (e.sdus j).data) := by
    intro j
    by_cases hj : j = i
    · rw [hj, Function.update_self, hsn, hdata]
    · rw [Function.update_of_ne hj]
  exact congrArg (fun f => ((e.cfg, e.txNext, e.sduCount, f), e.txList, e.deliveredSdus))
    (funext hsdus)

theorem statusSide_ackSegment : (e.ackSegment s).statusSide = e.statusSide := by
  have hset : (e.setSdu s.sdu { e.sdus s.sdu with
      freeCount := (e.sdus s.sdu).freeCount + 1 }).statusSide = e.statusSide :=
    statusSide_setSdu rfl rfl
  rw [ackSegment]
  split_ifs
  · exact (statusSide_call _ rfl).trans hset
  · exact hset

theorem statusSide_nackSegment : (e.nackSegment s).statusSide = e.statusSide := by
  have hset : (e.setSdu s.sdu { e.sdus s.sdu with
      retxCount := (e.sdus s.sdu).retxCount + 1 }).statusSide = e.statusSide :=
    statusSide_setSdu rfl rfl
  rw [nackSegment]
  split_ifs
  · exact (statusSide_call _ rfl).trans hset
  · exact hset

end AmEntity

/-! ### Status PDUs -/

namespace Scan

variable {c c' : Scan} {e₀ : AmEntity} {n : Nack} {ackSn : ℕ} {l : List Segment}

def listed (c : Scan) : List Segment := c.keptWait ++ c.curWait ++ (c.newRetx ++ c.curRetx)

/-- The two lists have no other segments than before the walk. -/
structure Within (e₀ : AmEntity) (c : Scan) : Prop where
  side : c.e.statusSide = e₀.statusSide
  lists : ∀ s ∈ c.listed, s ∈ e₀.waitList ++ e₀.retransmitList

namespace Within

theorem move (h : Within e₀ c) (hside : c'.e.statusSide = c.e.statusSide)
    (hlists : ∀ s ∈ c'.listed, s ∈ c.listed) : Within e₀ c' :=
  ⟨hside.trans h.side, fun s hs => h.lists s (hlists s hs)⟩

theorem step {next : Next} (h : Within e₀ c) (hnext : c.step n ackSn = next) :
    Within e₀ next.scan := by
  rw [← hnext]
  refine step_cases (P := fun next => Within e₀ next.scan) (fun _ _ => h) ?_ ?_
  · intro s rest hcur _
    refine h.move ?_ ?_
    · rw [waitHead]
      split_ifs
      exacts [AmEntity.statusSide_nackSegment, rfl, AmEntity.statusSide_ackSegment, rfl, rfl]
    · rw [waitHead]
      split_ifs <;> grind [listed, Next.scan]
  · intro s rest hcur _
    refine h.move ?_ ?_
    · rw [retxHead]
      split_ifs
      exacts [rfl, rfl, AmEntity.statusSide_ackSegment, rfl, rfl]
    · rw [retxHead]
      split_ifs <;> grind [listed, Next.scan]

theorem stopPoll {r : NackRange} (h : Within e₀ c) :
    Within e₀ { c with e := Scan.stopPoll r c.e } := by
  refine h.move ?_ fun _ hs => hs
  change (Scan.stopPoll r c.e).statusSide = _
  rw [Scan.stopPoll]
  split_ifs <;> rfl

theorem walk {nacks : List NackRange} (he : e₀.Agrees c.e) (h : Within e₀ c) :
    Within e₀ (nacks.foldl (processRange ackSn) c) := by
  have rule : WalkRule e₀ ackSn (fun _ => True) (fun _ => Within e₀) (Within e₀) :=
    { next := fun _ _ hc h => h.step hc
      done := fun _ _ hc h => h.step hc
      exhausted := fun _ _ hc h => h.step hc
      ended := id
      poll := .stopPoll }
  exact rule.walk (fun _ _ => trivial) he h

theorem ackWait (h : Within e₀ c) (hl : c.curWait = l) : Within e₀ (c.ackWait ackSn l) := by
  induction l generalizing c with
  | nil => exact h
  | cons s rest ih =>
    rw [Scan.ackWait]
    split_ifs
    · refine ih (h.move AmEntity.statusSide_ackSegment ?_) rfl
      grind [listed]
    · exact h

theorem ackRetx (h : Within e₀ c) (hl : c.curRetx = l) : Within e₀ (c.ackRetx ackSn l) := by
  induction l generalizing c with
  | nil => exact h
  | cons s rest ih =>
    rw [Scan.ackRetx]
    split_ifs
    · refine ih (h.move AmEntity.statusSide_ackSegment ?_) rfl
      grind [listed]
    · exact h

end Within

end Scan

namespace AmEntity

variable {e e' : AmEntity} {s : Segment} {fuel size x : ℕ} {bytes : List UInt8}

/-- A status PDU walks over the two lists. -/
theorem exists_within (e : AmEntity) (c : ControlPdu) : ∃ w : Scan, w.Within e ∧
    e.applyControlPdu c = w.finish.updateTxNextAck c.ackSn := by
  have hstart : Scan.Within e (.start (if e.modulusTx e.pollSn < e.modulusTx c.ackSn then
      { e with tPollRetransmitStart := 0 } else e)) := by
    split_ifs <;> exact ⟨rfl, fun _ hs => hs⟩
  have hwalk : Scan.Within e (e.statusWalk c) := .walk agrees_ackPoll hstart
  have hacked : Scan.Within e ((e.statusWalk c).ackWait c.ackSn (e.statusWalk c).curWait) :=
    hwalk.ackWait rfl
  exact ⟨_, hacked.ackRetx rfl, rfl⟩

theorem deliveredSdus_applyControlPdu (c : ControlPdu) :
    (e.applyControlPdu c).deliveredSdus = e.deliveredSdus := by
  obtain ⟨w, hw, happly⟩ := exists_within e c
  rw [happly]
  exact congrArg (·.2.2) hw.side

theorem upcalls_putInWaitList (h : e.putInWaitList s = some e') : e'.upcalls = e.upcalls := by
  obtain ⟨waitList, waitEnd, rfl⟩ := putInWaitList_cases h
  rfl

theorem upcalls_send {p : Bool} (h : (e.takeForcePoll p).2.serializeSdu s size
    (e.takeForcePoll p).1 = some (bytes, e')) : e'.upcalls = e.upcalls := by
  have htake : (e.takeForcePoll p).2.upcalls = e.upcalls := by
    rw [takeForcePoll]
    split_ifs <;> rfl
  rcases serializeSdu_cases h with rfl | rfl
  · exact htake
  · exact htake

theorem upcalls_takeRetx (rest : List Segment) :
    (e.takeRetx s rest size).2.upcalls = e.upcalls := by
  rw [takeRetx]
  split_ifs <;> rfl

theorem upcalls_takeTx (rest : List Segment) : (e.takeTx s rest size).2.upcalls = e.upcalls := by
  have hassign : ∀ e : AmEntity, (e.assignSn s).upcalls = e.upcalls := by
    intro e
    rw [assignSn]
    split <;> rfl
  rw [takeTx]
  split_ifs
  · exact hassign _
  · exact hassign _

theorem upcalls_generateRetxPdu (h : e.generateRetxPdu size = some (bytes, e')) :
    e'.upcalls = e.upcalls := by
  rw [generateRetxPdu] at h
  split at h
  · cases h
    rfl
  · split_ifs at h
    · cases h
      rfl
    · obtain ⟨e₁, hput, h⟩ := Option.bind_eq_some_iff.mp h
      exact (upcalls_send h).trans ((upcalls_putInWaitList hput).trans (upcalls_takeRetx _))

theorem upcalls_generateTxPdu (h : e.generateTxPdu size = some (bytes, e')) :
    e'.upcalls = e.upcalls := by
  rw [generateTxPdu] at h
  split_ifs at h
  · cases h
    rfl
  split at h
  · cases h
    rfl
  · split_ifs at h
    · cases h
      rfl
    · obtain ⟨e₁, hput, h⟩ := Option.bind_eq_some_iff.mp h
      exact (upcalls_send h).trans ((upcalls_putInWaitList hput).trans (upcalls_takeTx _))

theorem upcalls_generateStatus (h : e.generateStatus fuel size = some (bytes, e')) :
    e'.upcalls = e.upcalls := by
  rw [generateStatus] at h
  by_cases hsmall : size < 3
  · rw [if_pos hsmall] at h
    cases h
    rfl
  · rw [if_neg hsmall] at h
    obtain ⟨c, -, h⟩ := Option.bind_eq_some_iff.mp h
    obtain ⟨r, -, h⟩ := Option.bind_eq_some_iff.mp h
    cases h
    rfl

theorem upcalls_generatePdu (h : e.generatePdu fuel size = some (bytes, e')) :
    e'.upcalls = e.upcalls := by
  obtain ⟨⟨pdu₁, e₁⟩, hstatus, h⟩ := Option.bind_eq_some_iff.mp h
  have h₁ : e₁.upcalls = e.upcalls := by
    split_ifs at hstatus
    · exact upcalls_generateStatus hstatus
    · cases hstatus
      rfl
  dsimp only at h
  split_ifs at h
  · cases h
    exact h₁
  · obtain ⟨⟨pdu₂, e₂⟩, hretx, h⟩ := Option.bind_eq_some_iff.mp h
    have h₂ := (upcalls_generateRetxPdu hretx).trans h₁
    dsimp only at h
    split_ifs at h
    · cases h
      exact h₂
    · exact (upcalls_generateTxPdu h).trans h₂

theorem upcalls_recvSdu {buffer : List UInt8} {sduId : ℕ}
    (h : e.recvSdu buffer sduId = some e') : e'.upcalls = e.upcalls := by
  rw [recvSdu] at h
  split_ifs at h <;> cases h <;> rfl

theorem upcalls_discardSdu (sduId : ℕ) : (e.discardSdu sduId).upcalls = e.upcalls := by
  rw [discardSdu]
  split
  · rfl
  · split_ifs <;> rfl

theorem upcalls_retransmitFrom (sn : ℕ) (l : List Segment) :
    (retransmitFrom sn l e).upcalls = e.upcalls := by
  induction l generalizing e with
  | nil => rfl
  | cons cur rest ih =>
    rw [retransmitFrom]
    by_cases hcur : e.snOf cur = sn
    · rw [if_pos hcur]
      exact ih
    · rw [if_neg hcur]

theorem deliveredSdus_checkTPollRetransmit (h : e.checkTPollRetransmit = some e') :
    e'.deliveredSdus = e.deliveredSdus := by
  rw [checkTPollRetransmit] at h
  split_ifs at h
  · cases h
    rfl
  · cases h
    rfl
  · rw [retransmitFirst] at h
    split at h
    · cases h
    · cases h
      split_ifs
      · exact (deliveredSdus_call _ rfl).trans (deliveredSdus_congr (upcalls_retransmitFrom _ _))
      · exact deliveredSdus_congr (upcalls_retransmitFrom _ _)

/-! ### The window -/

/-- The slots when the window moves to the first SDU that has not been delivered. -/
theorem RxInv.updateRxNext_slots (hring : e.RxInv) (he : e.updateRxNext fuel x = some e') :
    ∃ k ≤ e.cfg.windowSize, e'.cfg = e.cfg ∧ e'.rxNext = (e.rxNext + k) % e.cfg.snModulus ∧
      e'.upcalls = e.upcalls ∧ (∀ i < k, sduDelivered (e.rx.ahead e.rxNext i) = true) ∧
      ∀ j < e.cfg.windowSize, e'.rx.ahead e'.rxNext j =
        if k + j < e.cfg.windowSize then e.rx.ahead e.rxNext (k + j) else [] := by
  rw [AmEntity.updateRxNext] at he
  split_ifs at he with hsn
  · obtain ⟨⟨rx', rxNext', count'⟩, hfree, rfl⟩ := Option.map_eq_some_iff.mp he
    rw [hring.snModulus_eq] at hfree
    obtain ⟨k, hk, rfl, hcount, hsize, -, hsnStart, hall, -, hcleared, hrest⟩ :=
      freeDelivered_spec' hring.size_pos hring.start_le hring.rxNext_lt' hfree
    obtain rfl : count' = k := by omega
    rw [hring.size_eq] at hk hrest
    refine ⟨count', hk, rfl, by rw [hring.snModulus_eq], rfl, hall, fun j hj => ?_⟩
    have hmove := RxManager.ahead_advance (m := rx') (by
      rw [hsnStart, hsize, hring.snStart_eq]
      exact hring.rxNext_lt') count' j
    rw [hsnStart, hsize, hring.snStart_eq] at hmove
    refine hmove.trans ?_
    split_ifs with hlt
    · exact hrest (count' + j) hlt (Nat.le_add_right _ _)
    · -- the slot has come round and was cleared
      have hmod := RxManager.ahead_mod (m := rx') e.rxNext (count' + j)
      rw [hsize, hring.size_eq, Nat.mod_eq_sub_mod (not_lt.mp hlt),
        Nat.mod_eq_of_lt (by omega)] at hmod
      rw [← hmod]
      exact hcleared _ (by omega)
  · cases he
    refine ⟨0, Nat.zero_le _, rfl, ?_, rfl, fun i hi => absurd hi (Nat.not_lt_zero i),
      fun j hj => ?_⟩
    · rw [Nat.add_zero, Nat.mod_eq_of_lt hring.rxNext_lt]
    · rw [Nat.zero_add, if_pos hj]

/-- The SDUs with the numbers in a list have been delivered: all before `rx_next`, which has the
number `base`, and those whose slots say so. No other slot is complete, unless it is busy. -/
structure Delivered (sdus : ℕ → List UInt8) (e : AmEntity) (base : ℕ) (numbers : List ℕ)
    (busy : Option ℕ) : Prop where
  rxNext : e.rxNext = base % e.cfg.snModulus
  slots : ∀ k < e.cfg.windowSize, SlotOf (sdus (base + k)) (e.rx.ahead e.rxNext k)
  marked : ∀ k < e.cfg.windowSize,
    sduDelivered (e.rx.ahead e.rxNext k) = true ↔ base + k ∈ numbers
  settled : ∀ k < e.cfg.windowSize, k ∉ busy → sduFull (e.rx.ahead e.rxNext k) = false
  passed : ∀ i < base, i ∈ numbers
  lt : ∀ i ∈ numbers, i < base + e.cfg.windowSize
  nonempty : ∀ i ∈ numbers, sdus i ≠ []
  nodup : numbers.Nodup
  deliveredSdus : e.deliveredSdus = numbers.map sdus

variable {sdus : ℕ → List UInt8} {base : ℕ} {numbers : List ℕ} {busy : Option ℕ}

/-- What the invariant depends on. -/
theorem Delivered.congr (h : e.Delivered sdus base numbers busy) (hcfg : e'.cfg = e.cfg)
    (hnext : e'.rxNext = e.rxNext) (hrx : e'.rx = e.rx) (hup : e'.deliveredSdus = e.deliveredSdus) :
    e'.Delivered sdus base numbers busy := by
  refine ⟨?_, ?_, ?_, ?_, h.passed, ?_, h.nonempty, h.nodup, hup.trans h.deliveredSdus⟩
  all_goals simp only [hcfg, hnext, hrx]
  · exact h.rxNext
  · exact h.slots
  · exact h.marked
  · exact h.settled
  · exact h.lt

theorem delivered_new (sdus : ℕ → List UInt8) (cfg : AmConfig) :
    (new cfg).Delivered sdus 0 [] none where
  rxNext := (Nat.zero_mod _).symm
  slots _ _ := .nil _
  marked _ _ := iff_of_false Bool.false_ne_true List.not_mem_nil
  settled _ _ _ := rfl
  passed i hi := absurd hi (Nat.not_lt_zero i)
  lt _ hi := absurd hi List.not_mem_nil
  nonempty _ hi := absurd hi List.not_mem_nil
  nodup := List.nodup_nil
  deliveredSdus := rfl

/-- The window moves past delivered SDUs. -/
theorem Delivered.updateRxNext (h : e.Delivered sdus base numbers none) (hring : e.RxInv)
    (he : e.updateRxNext fuel x = some e') :
    ∃ k ≤ e.cfg.windowSize, e'.cfg = e.cfg ∧ e'.rxNext = (e.rxNext + k) % e.cfg.snModulus ∧
      e'.Delivered sdus (base + k) numbers none := by
  obtain ⟨k, hk, hcfg, hnext, hup, hall, hslots⟩ := hring.updateRxNext_slots he
  refine ⟨k, hk, hcfg, hnext, ?_, ?_, ?_, ?_, ?_, ?_, h.nonempty, h.nodup,
    (deliveredSdus_congr hup).trans h.deliveredSdus⟩
  · rw [hnext, hcfg, h.rxNext, Nat.mod_add_mod]
  · intro j hj
    rw [hcfg] at hj
    rw [hslots j hj, Nat.add_assoc]
    split_ifs with hlt
    · exact h.slots _ hlt
    · exact .nil _
  · intro j hj
    rw [hcfg] at hj
    rw [hslots j hj, Nat.add_assoc]
    split_ifs with hlt
    · exact h.marked _ hlt
    · refine iff_of_false Bool.false_ne_true fun hmem => ?_
      have := h.lt _ hmem
      omega
  · intro j hj _
    rw [hcfg] at hj
    rw [hslots j hj]
    split_ifs with hlt
    · exact h.settled _ hlt (by simp)
    · rfl
  · intro i hi
    by_cases hlt : i < base
    · exact h.passed i hlt
    · obtain ⟨j, rfl⟩ := Nat.exists_eq_add_of_le (not_lt.mp hlt)
      exact (h.marked j (by omega)).mp (hall j (by omega))
  · intro i hi
    rw [hcfg]
    exact (h.lt i hi).trans_le (by omega)

/-- An SDU that is complete is delivered. -/
theorem Delivered.reassembleAndDeliver (h : e.Delivered sdus base numbers (some x))
    (hring : e.RxInv)
    (hx : x < e.cfg.windowSize) (hlength : (sdus (base + x)).length ≤ nrSduMax)
    (hfull : sduFull (e.rx.ahead e.rxNext x) = true) :
    (e.reassembleAndDeliver ((e.rxNext + x) % e.cfg.snModulus)).Delivered sdus base
      (numbers ++ [base + x]) none := by
  -- the slot under a name of its own, so that the state after the call stays readable
  obtain ⟨l, hl⟩ : ∃ l, l = e.rx.getPduFromSn ((e.rxNext + x) % e.cfg.snModulus) := ⟨_, rfl⟩
  have hold : l = e.rx.ahead e.rxNext x := by
    rw [hl, hring.getPduFromSn_ahead]
  have hslot := h.slots x hx
  rw [← hold] at hfull hslot
  have hundelivered : sduDelivered l = false := by
    rw [sduFull, Bool.and_eq_true, Bool.not_eq_true'] at hfull
    exact hfull.1
  -- a complete slot is not marked as delivered, so its number is a new one
  have hnew : base + x ∉ numbers := by
    rw [← h.marked x hx, ← hold, hundelivered]
    exact Bool.false_ne_true
  have hdeliver : e.reassembleAndDeliver ((e.rxNext + x) % e.cfg.snModulus) = AmEntity.call
      { e with
        rx := e.rx.setPduFromSn ((e.rxNext + x) % e.cfg.snModulus) (l.map Pdu.processed)
        rxSize := e.rxSize - (l.map fun pdu => (pdu.size : ℤ)).sum }
      (.deliverSdu (sdus (base + x))) := by
    rw [AmEntity.reassembleAndDeliver, ← hl]
    simp only [hslot.reassemble hlength hfull]
  rw [hdeliver]
  have hahead := hring.ahead_set hx (l.map Pdu.processed)
  refine ⟨h.rxNext, fun k hk => ?_, fun k hk => ?_, fun k hk _ => ?_, fun i hi => ?_,
    fun i hi => ?_, fun i hi => ?_, ?_, ?_⟩
  · have hk : k < e.cfg.windowSize := hk
    change SlotOf _ ((e.rx.setPduFromSn _ _).ahead e.rxNext k)
    rw [hahead, Nat.mod_eq_of_lt hk]
    split_ifs with hkx
    · rw [hkx]
      exact hslot.processed hfull
    · exact h.slots k hk
  · have hk : k < e.cfg.windowSize := hk
    change sduDelivered ((e.rx.setPduFromSn _ _).ahead e.rxNext k) = true ↔ _
    rw [hahead, Nat.mod_eq_of_lt hk, List.mem_append, List.mem_singleton]
    split_ifs with hkx
    · rw [hkx]
      exact iff_of_true (sduDelivered_processed hfull) (.inr rfl)
    · rw [h.marked k hk]
      exact (or_iff_left (by omega)).symm
  · have hk : k < e.cfg.windowSize := hk
    change sduFull ((e.rx.setPduFromSn _ _).ahead e.rxNext k) = false
    rw [hahead, Nat.mod_eq_of_lt hk]
    split_ifs with hkx
    · rw [sduFull, sduDelivered_processed hfull]
      rfl
    · refine h.settled k hk fun hbusy => hkx ?_
      exact (Option.mem_some_iff.mp hbusy).symm
  · exact List.mem_append_left _ (h.passed i hi)
  · rcases List.mem_append.mp hi with hi | hi
    · exact h.lt i hi
    · rw [List.mem_singleton.mp hi]
      change base + x < base + e.cfg.windowSize
      omega
  · rcases List.mem_append.mp hi with hi | hi
    · exact h.nonempty i hi
    · rw [List.mem_singleton.mp hi]
      exact hslot.ne_nil hfull
  · exact List.nodup_append.mpr ⟨h.nodup, List.nodup_singleton _, fun i hi j hj => by
      rw [List.mem_singleton.mp hj]
      rintro rfl
      exact hnew hi⟩
  · rw [List.map_append, ← h.deliveredSdus, AmEntity.deliveredSdus, AmEntity.deliveredSdus, call,
      List.filterMap_append]
    rfl

/-- A segment is put into the slot of its SDU. -/
theorem Delivered.addPdu (h : e.Delivered sdus base numbers none) (hring : e.RxInv) {pdu : Pdu}
    (hx : x < e.cfg.windowSize) (hsn : pdu.sn = (e.rxNext + x) % e.cfg.snModulus)
    (hsegment : IsSegment (sdus (base + x)) pdu)
    (hundelivered : sduDelivered (e.rx.ahead e.rxNext x) = false) :
    (e.addPdu pdu).Delivered sdus base numbers (some x) := by
  obtain ⟨l, hl⟩ : ∃ l, l = e.rx.getPduFromSn pdu.sn := ⟨_, rfl⟩
  have hold : l = e.rx.ahead e.rxNext x := by
    rw [hl, hsn, hring.getPduFromSn_ahead]
  have hahead : ∀ k < e.cfg.windowSize, (e.addPdu pdu).rx.ahead e.rxNext k =
      if k = x then insertPdu pdu l else e.rx.ahead e.rxNext k := by
    intro k hk
    have hset := hring.ahead_set hx (insertPdu pdu l) k
    rw [Nat.mod_eq_of_lt hk, ← hsn, hl] at hset
    rw [hl]
    exact hset
  have hdata : pdu.data.isSome := by
    rw [hsegment.bytes]
    rfl
  refine ⟨h.rxNext, fun k hk => ?_, fun k hk => ?_, fun k hk hbusy => ?_, h.passed, h.lt,
    h.nonempty, h.nodup, h.deliveredSdus⟩
  · change SlotOf _ ((e.addPdu pdu).rx.ahead e.rxNext k)
    rw [hahead k hk]
    split_ifs with hkx
    · rw [hkx, hold]
      exact (h.slots x hx).insertPdu hundelivered hsegment
    · exact h.slots k hk
  · change sduDelivered ((e.addPdu pdu).rx.ahead e.rxNext k) = true ↔ _
    rw [hahead k hk, ← h.marked k hk]
    split_ifs with hkx
    · -- a new segment does not carry the mark
      rw [hkx, hold, hundelivered, sduDelivered_insertPdu hdata hundelivered]
    · exact Iff.rfl
  · change sduFull ((e.addPdu pdu).rx.ahead e.rxNext k) = false
    have hkx : k ≠ x := by
      rintro rfl
      exact hbusy (Option.mem_some_self k)
    rw [hahead k hk, if_neg hkx]
    exact h.settled k hk (by simp)

theorem windowMove {k : ℕ} (hring : e.RxInv) (hk : k ≤ e.cfg.windowSize)
    (hnext : e'.rxNext = (e.rxNext + k) % e.cfg.snModulus) :
    Window.offset e.cfg.snModulus e.rxNext e'.rxNext = k := by
  rw [hnext]
  exact Window.offset_add_mod hring.rxNext_lt (hk.trans_lt e.cfg.windowSize_lt)

theorem Delivered.completeSdu (h : e.Delivered sdus base numbers (some x)) (hring : e.RxInv)
    (hx : x < e.cfg.windowSize) (hlength : (sdus (base + x)).length ≤ nrSduMax)
    (hfull : sduFull (e.rx.ahead e.rxNext x) = true)
    (he : e.completeSdu fuel ((e.rxNext + x) % e.cfg.snModulus) = some e') :
    ∃ numbers', e'.Delivered sdus
      (base + Window.offset e.cfg.snModulus e.rxNext e'.rxNext) numbers' none := by
  obtain ⟨e₂, he₂, he⟩ := Option.bind_eq_some_iff.mp he
  have hdel := h.reassembleAndDeliver hring hx hlength hfull
  have hring₁ := hring.reassembleAndDeliver ((e.rxNext + x) % e.cfg.snModulus)
  have hcore := e.windowSide_reassembleAndDeliver ((e.rxNext + x) % e.cfg.snModulus)
  simp only [windowSide, Prod.mk.injEq] at hcore
  obtain ⟨hcfg, hnext, -⟩ := hcore
  have hring₂ := hring₁.updateHighestStatus he₂
  -- `rx_highest_status` is no part of the invariant
  have hdel₂ : e₂.Delivered sdus base (numbers ++ [base + x]) none ∧
      e₂.cfg = e.cfg ∧ e₂.rxNext = e.rxNext := by
    rw [AmEntity.updateHighestStatus] at he₂
    split_ifs at he₂
    · obtain ⟨sn, -, rfl⟩ := Option.map_eq_some_iff.mp he₂
      exact ⟨hdel.congr rfl rfl rfl rfl, hcfg, hnext⟩
    · cases he₂
      exact ⟨hdel, hcfg, hnext⟩
  obtain ⟨hdel₂, hcfg₂, hnext₂⟩ := hdel₂
  obtain ⟨k, hk, -, hnext', hdel'⟩ := hdel₂.updateRxNext hring₂ he
  rw [hcfg₂] at hk
  rw [hcfg₂, hnext₂] at hnext'
  rw [windowMove hring hk hnext']
  exact ⟨_, hdel'⟩

theorem upcalls_updateNextHighest : (e.updateNextHighest x).upcalls = e.upcalls := by
  rw [updateNextHighest]
  split_ifs <;> rfl

theorem upcalls_startTReassembly : (e.startTReassembly x).upcalls = e.upcalls := by
  rw [startTReassembly]
  split_ifs <;> rfl

theorem upcalls_updateTReassembly : e.updateTReassembly.upcalls = e.upcalls := by
  have hstop : e.stopTReassembly.upcalls = e.upcalls := by
    rw [stopTReassembly]
    split_ifs <;> rfl
  rw [updateTReassembly]
  split_ifs
  · exact upcalls_startTReassembly.trans hstop
  · exact hstop

theorem upcalls_poll (p : Bool) : (e.poll p).upcalls = e.upcalls := by
  rw [poll]
  split_ifs <;> rfl

/-- What keeps the window and calls nothing keeps the invariant. -/
theorem Delivered.congr_core (h : e.Delivered sdus base numbers busy) (hcore : e'.rxCore = e.rxCore)
    (hup : e'.upcalls = e.upcalls) : e'.Delivered sdus base numbers busy := by
  simp only [rxCore, Prod.mk.injEq] at hcore
  obtain ⟨hcfg, hnext, -, hrx, -⟩ := hcore
  exact h.congr hcfg hnext hrx (deliveredSdus_congr hup)

/-- An accepted segment is received. -/
theorem Delivered.receptionActions (h : e.Delivered sdus base numbers (some x)) (hring : e.RxInv)
    (hx : x < e.cfg.windowSize) (hlength : (sdus (base + x)).length ≤ nrSduMax)
    (he : e.receptionActions fuel ((e.rxNext + x) % e.cfg.snModulus) = some e') :
    ∃ numbers', e'.Delivered sdus
      (base + Window.offset e.cfg.snModulus e.rxNext e'.rxNext) numbers' none := by
  obtain ⟨e₂, he₂, rfl⟩ := Option.map_eq_some_iff.mp he
  have hdel : (e.updateNextHighest ((e.rxNext + x) % e.cfg.snModulus)).Delivered sdus base numbers
      (some x) := h.congr_core rxCore_updateNextHighest upcalls_updateNextHighest
  have hring₁ : (e.updateNextHighest ((e.rxNext + x) % e.cfg.snModulus)).RxInv :=
    hring.congr rxCore_updateNextHighest
  have hcore := @rxCore_updateNextHighest e ((e.rxNext + x) % e.cfg.snModulus)
  simp only [rxCore, Prod.mk.injEq] at hcore
  obtain ⟨hcfg, hnext, -⟩ := hcore
  have hslot := hring₁.getPduFromSn_ahead x
  generalize e.updateNextHighest ((e.rxNext + x) % e.cfg.snModulus) = e₁ at *
  rw [← hcfg, ← hnext] at he₂ ⊢
  rw [← hcfg] at hx
  have htimer := @rxCore_updateTReassembly e₂
  have hmove : e₂.updateTReassembly.rxNext = e₂.rxNext := congrArg (·.2.1) htimer
  rw [hmove]
  rw [hslot] at he₂
  split_ifs at he₂ with hfull
  · obtain ⟨numbers', hdel'⟩ := hdel.completeSdu hring₁ hx hlength hfull he₂
    exact ⟨numbers', hdel'.congr_core htimer upcalls_updateTReassembly⟩
  · -- the busy slot is settled, since it is not complete
    cases he₂
    rw [Window.offset_self, Nat.add_zero]
    refine ⟨numbers, Delivered.congr_core ?_ htimer upcalls_updateTReassembly⟩
    refine { hdel with settled := fun k hk _ => ?_ }
    by_cases hkx : k = x
    · rw [hkx]
      exact Bool.eq_false_iff.mpr hfull
    · exact hdel.settled k hk fun hbusy => hkx (Option.mem_some_iff.mp hbusy).symm

/-! ### Operations -/

/-- A data PDU of the buffer has a segment of the SDU that it is sent with, less than a window
behind `rx_next`, which has the number `base`, or ahead of it. -/
def Arrives (sdus : ℕ → List UInt8) (e : AmEntity) (base : ℕ) : AmOp → Prop
  | .recvPdu buffer => ∀ d p pdu, (Decoder.init buffer).getBits 1 = some (1, d) →
      parseDataPdu e.cfg d = (p, some pdu) → ∃ i, base ≤ i + e.cfg.windowSize ∧
        i < base + e.cfg.windowSize ∧ pdu.sn = i % e.cfg.snModulus ∧ IsSegment (sdus i) pdu
  | _ => True

/-- A segment in the window is the one of the SDU that it is sent with. -/
theorem Delivered.number_eq (h : e.Delivered sdus base numbers busy) {i : ℕ}
    (hx : x < e.cfg.windowSize) (hlow : base ≤ i + e.cfg.windowSize)
    (hhigh : i < base + e.cfg.windowSize)
    (hsn : (e.rxNext + x) % e.cfg.snModulus = i % e.cfg.snModulus) : i = base + x := by
  rw [h.rxNext, Nat.mod_add_mod] at hsn
  have hw := e.cfg.snModulus_eq
  exact Window.eq_of_mod_eq hsn.symm (by omega) (by omega)

theorem Delivered.recvDataPdu (h : e.Delivered sdus base numbers none) (hring : e.RxInv)
    (hlength : ∀ i, (sdus i).length ≤ nrSduMax) {d : Decoder}
    (harrives : ∀ p pdu, parseDataPdu e.cfg d = (p, some pdu) → ∃ i,
      base ≤ i + e.cfg.windowSize ∧ i < base + e.cfg.windowSize ∧
        pdu.sn = i % e.cfg.snModulus ∧ IsSegment (sdus i) pdu)
    (he : e.recvDataPdu fuel d = some e') :
    ∃ numbers', e'.Delivered sdus
      (base + Window.offset e.cfg.snModulus e.rxNext e'.rxNext) numbers' none := by
  -- a PDU that is refused still triggers a status report
  have hpoll : ∀ p, ∃ numbers', (e.poll p).Delivered sdus
      (base + Window.offset e.cfg.snModulus e.rxNext (e.poll p).rxNext) numbers' none := by
    intro p
    have hnext : (e.poll p).rxNext = e.rxNext := congrArg (·.2.1) (rxCore_poll p)
    rw [hnext, Window.offset_self, Nat.add_zero]
    exact ⟨numbers, h.congr_core (rxCore_poll p) (upcalls_poll p)⟩
  rw [AmEntity.recvDataPdu] at he
  split at he
  · cases he
    exact hpoll _
  · next p pdu hparse =>
    split_ifs at he with hacc
    · obtain ⟨e₁, he₁, rfl⟩ := Option.map_eq_some_iff.mp he
      rw [accepts, Bool.and_eq_true, Bool.and_eq_true] at hacc
      obtain ⟨⟨-, hwindow⟩, hnew⟩ := hacc
      have hx : e.modulusRx pdu.sn < e.cfg.windowSize := of_decide_eq_true hwindow
      have hsn : (e.rxNext + e.modulusRx pdu.sn) % e.cfg.snModulus = pdu.sn :=
        Window.add_offset_mod (sn_of_parseDataPdu hparse) hring.rxNext_lt
      obtain ⟨i, hlow, hhigh, hi, hsegment⟩ := harrives p pdu hparse
      -- the sequence number and the distance from `rx_next` determine the SDU
      obtain rfl := h.number_eq hx hlow hhigh (hsn.trans hi)
      have hslot : e.rx.getPduFromSn pdu.sn = e.rx.ahead e.rxNext (e.modulusRx pdu.sn) := by
        nth_rewrite 1 [← hsn]
        exact hring.getPduFromSn_ahead _
      rw [hslot, Bool.not_eq_true'] at hnew
      generalize e.modulusRx pdu.sn = x at *
      have hundelivered := (h.slots x hx).undelivered_of_accepts hsegment.toIsPart hnew
      have hadd := h.addPdu hring hx hsn.symm hsegment hundelivered
      rw [← hsn] at he₁
      obtain ⟨numbers', hdel⟩ := hadd.receptionActions (hring.addPdu pdu) hx (hlength _) he₁
      have hnext : (e₁.poll p).rxNext = e₁.rxNext := congrArg (·.2.1) (rxCore_poll p)
      rw [hnext]
      exact ⟨numbers', hdel.congr_core (rxCore_poll p) (upcalls_poll p)⟩
    · cases he
      exact hpoll _

/-- What keeps the receiving side and delivers nothing keeps the invariant. -/
theorem Delivered.congr_side (h : e.Delivered sdus base numbers none)
    (hside : e'.windowSide = e.windowSide) (hup : e'.deliveredSdus = e.deliveredSdus) :
    ∃ numbers', e'.Delivered sdus
      (base + Window.offset e.cfg.snModulus e.rxNext e'.rxNext) numbers' none := by
  simp only [windowSide, Prod.mk.injEq] at hside
  obtain ⟨hcfg, hnext, -, -, hrx⟩ := hside
  rw [hnext, Window.offset_self, Nat.add_zero]
  exact ⟨numbers, h.congr hcfg hnext hrx hup⟩

theorem Delivered.op {op : AmOp} (h : e.Delivered sdus base numbers none) (hring : e.RxInv)
    (hlength : ∀ i, (sdus i).length ≤ nrSduMax) (harrives : e.Arrives sdus base op)
    (he : e.op fuel op = some e') :
    ∃ numbers', e'.Delivered sdus
      (base + Window.offset e.cfg.snModulus e.rxNext e'.rxNext) numbers' none := by
  cases op with
  | recvSdu buffer sduId =>
    exact h.congr_side (congrArg Prod.fst (receiveSide_recvSdu he))
      (deliveredSdus_congr (upcalls_recvSdu he))
  | generatePdu size =>
    obtain ⟨⟨pdu, e₁⟩, hpdu, rfl⟩ := Option.map_eq_some_iff.mp he
    exact h.congr_side (congrArg Prod.fst (receiveSide_generatePdu hpdu))
      (deliveredSdus_congr (upcalls_generatePdu hpdu))
  | recvPdu buffer =>
    rw [AmEntity.op, recvPdu] at he
    split at he
    · cases he
      exact h.congr_side rfl rfl
    · next dc d hdc =>
      split_ifs at he with hcontrol
      · cases he
        rw [processControlPdu]
        split
        · exact h.congr_side rfl rfl
        · split_ifs
          · exact h.congr_side (congrArg Prod.fst (receiveSide_applyControlPdu _))
              (deliveredSdus_applyControlPdu _)
          · exact h.congr_side rfl rfl
      · -- the D/C bit of a data PDU
        have hone : dc = 1 := by
          have := Decoder.getBits_lt hdc
          omega
        rw [hone] at hdc
        exact h.recvDataPdu hring hlength (fun p pdu => harrives d p pdu hdc) he
  | setTime now =>
    obtain ⟨e₁, hpoll, he⟩ := Option.bind_eq_some_iff.mp he
    have hside : e₁.windowSide = e.windowSide :=
      congrArg Prod.fst (receiveSide_checkTPollRetransmit hpoll)
    have hdel := deliveredSdus_checkTPollRetransmit hpoll
    rw [checkTReassembly] at he
    split_ifs at he
    · cases he
      exact h.congr_side hside hdel
    · -- `t-Reassembly` has expired: only `rx_highest_status` and the timer move
      obtain ⟨sn, -, rfl⟩ := Option.map_eq_some_iff.mp he
      have hcore := @rxCore_startTReassembly
        { e₁ with tReassemblyStart := 0, rxHighestStatus := sn, statusTriggered := true } sn
      simp only [windowSide, Prod.mk.injEq] at hside
      obtain ⟨hcfg, hnext, -, -, hrx⟩ := hside
      simp only [rxCore, Prod.mk.injEq] at hcore
      obtain ⟨hcfg', hnext', -, hrx', -⟩ := hcore
      have hsame := hnext'.trans hnext
      change ∃ numbers', Delivered sdus _
        (base + Window.offset e.cfg.snModulus e.rxNext (startTReassembly _ sn).rxNext) numbers' none
      rw [hsame, Window.offset_self, Nat.add_zero]
      exact ⟨numbers, h.congr (hcfg'.trans hcfg) (hnext'.trans hnext) (hrx'.trans hrx)
        ((deliveredSdus_congr upcalls_startTReassembly).trans hdel)⟩
  | discardSdu sduId =>
    cases he
    exact h.congr_side (congrArg Prod.fst (receiveSide_discardSdu sduId))
      (deliveredSdus_congr (upcalls_discardSdu sduId))

end AmEntity

/-! ### Runs -/

/-- A run in which the data PDUs arrive less than a window from `rx_next`, whose number goes with
the state. -/
abbrev ReceptionRun (sdus : ℕ → List UInt8) (cfg : AmConfig) (ops : List AmOp)
    (s : AmEntity × ℕ) : Prop :=
  Run.Reach (fun op s s' => s.1.Arrives sdus s.2 op ∧ (∃ fuel, s.1.op fuel op = some s'.1) ∧
      s'.2 = s.2 + Window.offset s.1.cfg.snModulus s.1.rxNext s'.1.rxNext)
    (· = (AmEntity.new cfg, 0)) ops s

/-- The SDUs that were delivered, each at most once and as it was: all before `rx_next`, and none
beyond the window. Every other SDU in the window misses a byte. -/
structure AmEntity.DeliversOnce (e : AmEntity) (sdus : ℕ → List UInt8) (base : ℕ)
    (numbers : List ℕ) : Prop where
  rxNext : e.rxNext = base % e.cfg.snModulus
  deliveredSdus : e.deliveredSdus = numbers.map sdus
  nodup : numbers.Nodup
  passed : ∀ i < base, i ∈ numbers
  lt : ∀ i ∈ numbers, i < base + e.cfg.windowSize
  missing : ∀ i, base ≤ i → i < base + e.cfg.windowSize → i ∉ numbers → sdus i ≠ [] →
    ∃ b < (sdus i).length, ∀ pdu ∈ e.rx.getPduFromSn (i % e.cfg.snModulus),
      ¬ (pdu.so ≤ b ∧ b < pdu.so + pdu.size)

theorem AmEntity.Delivered.once {e : AmEntity} {sdus : ℕ → List UInt8} {base : ℕ}
    {numbers : List ℕ} (h : e.Delivered sdus base numbers none) (hring : e.RxInv) :
    e.DeliversOnce sdus base numbers := by
  refine ⟨h.rxNext, h.deliveredSdus, h.nodup, h.passed, h.lt, fun i hlow hhigh hnot hdata => ?_⟩
  obtain ⟨k, rfl⟩ := Nat.exists_eq_add_of_le hlow
  have hk : k < e.cfg.windowSize := by omega
  have hslot : e.rx.getPduFromSn ((base + k) % e.cfg.snModulus) = e.rx.ahead e.rxNext k := by
    rw [← Nat.mod_add_mod, ← h.rxNext]
    exact hring.getPduFromSn_ahead k
  rw [hslot]
  refine (h.slots k hk).exists_missing hdata ?_ (h.settled k hk (by simp))
  rw [← h.marked k hk] at hnot
  exact Bool.eq_false_iff.mpr hnot

/-- In every run an entity delivers each SDU at most once, and as it was. -/
theorem am_deliversOnce {sdus : ℕ → List UInt8} {cfg : AmConfig} {ops : List AmOp}
    {s : AmEntity × ℕ} (hlength : ∀ i, (sdus i).length ≤ nrSduMax)
    (h : ReceptionRun sdus cfg ops s) : ∃ numbers, s.1.DeliversOnce sdus s.2 numbers := by
  have hinv : s.1.ReceiverInv ∧ ∃ numbers, s.1.Delivered sdus s.2 numbers none := by
    refine Run.Reach.invariant
      (I := fun s => s.1.ReceiverInv ∧ ∃ numbers, s.1.Delivered sdus s.2 numbers none) h ?_ ?_
    · rintro _ rfl
      exact ⟨AmEntity.receiverInv_new cfg, [], AmEntity.delivered_new sdus cfg⟩
    · rintro op ⟨e, base⟩ ⟨e', base'⟩ ⟨hreceiver, numbers, hdel⟩ ⟨harrives, ⟨fuel, he⟩, hbase⟩
      dsimp only at *
      subst hbase
      obtain ⟨_, _, hwindow, -⟩ := id hreceiver
      exact ⟨hreceiver.op he, hdel.op hwindow.slots.ring hlength harrives he⟩
  obtain ⟨⟨_, _, hwindow, -⟩, numbers, hdel⟩ := hinv
  exact ⟨numbers, hdel.once hwindow.slots.ring⟩

theorem arrives_dataBuffer {e : AmEntity} {i base : ℕ} (hcfg : e.cfg = exampleCfg) (hi : i < 2048)
    (hlow : base ≤ i + 2048) (hhigh : i < base + 2048) :
    e.Arrives (fun _ => [0]) base (.recvPdu (dataBuffer i)) := by
  intro d p pdu hdc hparse
  obtain ⟨d', hdc', hparse'⟩ := parse_dataBuffer hi
  obtain ⟨-, rfl⟩ := Prod.mk.inj (Option.some.inj (hdc'.symm.trans hdc))
  rw [hcfg, hparse'] at hparse
  obtain ⟨-, hpdu⟩ := Prod.mk.inj hparse
  obtain rfl := Option.some.inj hpdu
  rw [hcfg]
  exact ⟨i, hlow, hhigh, (Nat.mod_eq_of_lt (hi.trans (by decide))).symm,
    ⟨⟨rfl, le_rfl, fun _ => rfl⟩, Nat.one_pos, iff_of_true rfl rfl⟩⟩

theorem am_deliversOnce_swappedOps : ∃ s, ReceptionRun (fun _ => [0]) exampleCfg swappedOps s ∧
    s.1.deliveredSdus = [[0], [0]] ∧ ∃ numbers, s.1.DeliversOnce (fun _ => [0]) s.2 numbers := by
  have hfirst : ((AmEntity.new exampleCfg).op 5 (.recvPdu (dataBuffer 1))).map
      (fun e => (e.cfg, e.rxNext)) = some (exampleCfg, 0) := by
    decide +kernel
  obtain ⟨e₁, he₁, hstate⟩ := Option.map_eq_some_iff.mp hfirst
  obtain ⟨hcfg, hnext⟩ := Prod.mk.inj hstate
  have hsecond : (((AmEntity.new exampleCfg).op 5 (.recvPdu (dataBuffer 1))).bind
      fun e => e.op 5 (.recvPdu (dataBuffer 0))).map (·.deliveredSdus) = some [[0], [0]] := by
    decide +kernel
  obtain ⟨e₂, he₂, hdel⟩ := Option.map_eq_some_iff.mp hsecond
  rw [he₁, Option.bind_some] at he₂
  have hrun : ReceptionRun (fun _ => [0]) exampleCfg [.recvPdu (dataBuffer 1)] (e₁, 0) :=
    .first rfl ⟨arrives_dataBuffer rfl (by decide) (by decide) (by decide), ⟨5, he₁⟩,
      by rw [hnext]; rfl⟩
  have hrun : ReceptionRun (fun _ => [0]) exampleCfg swappedOps
      (e₂, 0 + Window.offset e₁.cfg.snModulus e₁.rxNext e₂.rxNext) :=
    hrun.step ⟨arrives_dataBuffer hcfg (by decide) (Nat.zero_le _) (Nat.zero_lt_succ _), ⟨5, he₂⟩,
      rfl⟩
  exact ⟨_, hrun, hdel, am_deliversOnce (fun _ => by decide) hrun⟩

end LlmHric.Rlc
