import LlmHric.Rlc.AmControl
import Mathlib.Data.Finset.Card
import Mathlib.Data.Finset.Range

/-! The reception of a data PDU that completes the SDU `rx_highest_status` moves `rx_highest_status`
to the next SDU that has not been delivered. The ring has `window_size` slots, so the search for it
comes round, and it never ends when every slot holds a delivered SDU. -/

namespace LlmHric.Rlc

/-! ### The ring -/

namespace RxManager

variable {m : RxManager} {sn p : ℕ}

theorem getPos_lt (hsize : 0 < m.size) (sn : ℕ) : m.getPos sn < m.size :=
  Nat.mod_lt _ hsize

/-- Consecutive sequence numbers have consecutive slots, also where they wrap around. -/
theorem getPos_succ (hstart : m.snStart ≤ m.size * 2) (sn : ℕ) :
    m.getPos ((sn + 1) % (2 * m.size)) = (m.getPos sn + 1) % m.size := by
  have hwrap : (sn + 1) % (2 * m.size) ≡ sn + 1 [MOD m.size] :=
    (Nat.mod_modEq (sn + 1) (2 * m.size)).of_mul_left 2
  have hsub : (sn + 1) % (2 * m.size) + m.size * 2 - m.snStart ≡
      sn + 1 + m.size * 2 - m.snStart [MOD m.size] := by
    refine Nat.ModEq.add_right_cancel' m.snStart ?_
    rw [Nat.sub_add_cancel (by omega), Nat.sub_add_cancel (by omega)]
    exact hwrap.add_right _
  have hsum : m.start + (sn + 1 + m.size * 2 - m.snStart) =
      m.start + (sn + m.size * 2 - m.snStart) + 1 := by omega
  calc m.getPos ((sn + 1) % (2 * m.size))
      = (m.start + (sn + 1 + m.size * 2 - m.snStart)) % m.size := hsub.add_left m.start
    _ = (m.start + (sn + m.size * 2 - m.snStart) + 1) % m.size := by rw [hsum]
    _ = (m.getPos sn + 1) % m.size := (Nat.mod_add_mod _ _ _).symm

@[simp] theorem getPos_setPduFromSn (l : List Pdu) (sn' : ℕ) :
    (m.setPduFromSn sn l).getPos sn' = m.getPos sn' := rfl

/-- Every slot holds a delivered SDU. -/
def AllDelivered (m : RxManager) : Prop := ∀ p < m.size, sduDelivered (m.rxList p) = true

/-- A slot that gets a delivered SDU leaves it to the others. -/
theorem allDelivered_set {l : List Pdu} (hl : sduDelivered l = true) :
    (m.setPduFromSn sn l).AllDelivered ↔
      ∀ p < m.size, p ≠ m.getPos sn → sduDelivered (m.rxList p) = true := by
  constructor
  · intro h p hp hne
    simpa [setPduFromSn, Function.update_of_ne hne] using h p hp
  · intro h p hp
    by_cases heq : p = m.getPos sn
    · simpa [setPduFromSn, heq] using hl
    · simpa [setPduFromSn, Function.update_of_ne heq] using h p hp heq

/-- The number of slots with a delivered SDU. -/
def deliveredCount (m : RxManager) : ℕ :=
  ((Finset.range m.size).filter fun p => sduDelivered (m.rxList p) = true).card

/-- Clearing a delivered SDU leaves fewer of them. -/
theorem deliveredCount_clearPdu (hsize : 0 < m.size)
    (h : sduDelivered (m.getPduFromSn sn) = true) :
    (m.clearPdu sn).deliveredCount < m.deliveredCount := by
  refine Finset.card_lt_card ?_
  rw [Finset.ssubset_iff_of_subset]
  · refine ⟨m.getPos sn, ?_, ?_⟩
    · rw [Finset.mem_filter, Finset.mem_range]
      exact ⟨getPos_lt hsize sn, h⟩
    · rw [Finset.mem_filter]
      simp [clearPdu, setPduFromSn, sduDelivered]
  · intro p hp
    rw [Finset.mem_filter, Finset.mem_range] at hp ⊢
    refine ⟨hp.1, ?_⟩
    by_cases heq : p = m.getPos sn
    · rw [heq]
      exact h
    · simpa [clearPdu, setPduFromSn, Function.update_of_ne heq] using hp.2

end RxManager

namespace AmEntity

variable {e e' : AmEntity} {sn x fuel : ℕ}

/-- The invariant of the receiving side: the ring has a slot for every sequence number of the
window, and begins with `rx_next`. -/
structure RxInv (e : AmEntity) : Prop where
  size_eq : e.rx.size = e.cfg.windowSize
  snStart_eq : e.rx.snStart = e.rxNext
  rxNext_lt : e.rxNext < e.cfg.snModulus

theorem RxInv.size_pos (h : e.RxInv) : 0 < e.rx.size := h.size_eq ▸ e.cfg.windowSize_pos

theorem RxInv.getPos_nextSn (h : e.RxInv) (sn : ℕ) :
    e.rx.getPos (e.nextSn sn) = (e.rx.getPos sn + 1) % e.rx.size := by
  have hmod : e.cfg.snModulus = 2 * e.rx.size := by rw [h.size_eq, e.cfg.snModulus_eq]
  have hstart : e.rx.snStart ≤ e.rx.size * 2 := by
    rw [h.snStart_eq]
    have := h.rxNext_lt
    omega
  rw [nextSn, hmod]
  exact RxManager.getPos_succ hstart sn

/-! ### The loops -/

/-- The search goes on as long as it meets delivered SDUs. -/
theorem skipDelivered_eq_none (h : e.rx.AllDelivered) (hsize : 0 < e.rx.size) (fuel sn : ℕ) :
    e.skipDelivered fuel sn = none := by
  induction fuel generalizing sn with
  | zero => rfl
  | succ fuel ih =>
    have hslot : sduDelivered (e.rx.getPduFromSn sn) = true :=
      h _ (RxManager.getPos_lt hsize sn)
    rw [skipDelivered, if_pos hslot]
    exact ih _

/-- A slot without a delivered SDU ends the search in the round that reaches it. -/
theorem RxInv.skipDelivered_isSome (h : e.RxInv) {p k : ℕ}
    (hp : sduDelivered (e.rx.rxList p) = false) (hk : (e.rx.getPos sn + k) % e.rx.size = p)
    (hfuel : k < fuel) : (e.skipDelivered fuel sn).isSome = true := by
  induction k generalizing sn fuel with
  | zero =>
    have hpos : e.rx.getPos sn = p := by
      rwa [Nat.add_zero, Nat.mod_eq_of_lt (RxManager.getPos_lt h.size_pos sn)] at hk
    have hslot : ¬ sduDelivered (e.rx.getPduFromSn sn) = true := by
      rw [RxManager.getPduFromSn, hpos, hp]
      exact Bool.false_ne_true
    obtain ⟨fuel, rfl⟩ := Nat.exists_eq_succ_of_ne_zero hfuel.ne'
    rw [skipDelivered, if_neg hslot]
    rfl
  | succ k ih =>
    obtain ⟨fuel, rfl⟩ := Nat.exists_eq_succ_of_ne_zero (Nat.ne_of_gt (Nat.zero_lt_of_lt hfuel))
    rw [skipDelivered]
    split_ifs with hslot
    · refine ih ?_ (Nat.lt_of_succ_lt_succ hfuel)
      rw [h.getPos_nextSn, Nat.mod_add_mod, ← hk]
      congr 1
      omega
    · rfl

/-- The search ends within a round trip when some slot holds no delivered SDU. -/
theorem RxInv.exists_skipDelivered (h : e.RxInv) (hall : ¬ e.rx.AllDelivered) (sn : ℕ)
    (hfuel : e.rx.size ≤ fuel) : ∃ sn', e.skipDelivered fuel sn = some sn' := by
  obtain ⟨p, hp, hslot⟩ : ∃ p < e.rx.size, ¬ sduDelivered (e.rx.rxList p) = true := by
    simpa [RxManager.AllDelivered] using hall
  have hpos := RxManager.getPos_lt h.size_pos sn
  refine Option.isSome_iff_exists.mp (h.skipDelivered_isSome (by simpa using hslot)
    (Window.add_offset_mod hp hpos) ?_)
  exact (Window.offset_lt hp hpos).trans_le hfuel

/-- Every round of the second loop clears a slot, so it ends. -/
theorem exists_freeDelivered (snModulus : ℕ) {rx : RxManager} (hsize : 0 < rx.size)
    (hfuel : rx.deliveredCount < fuel) (rxNext count : ℕ) :
    ∃ r, freeDelivered snModulus fuel rx rxNext count = some r := by
  induction fuel generalizing rx rxNext count with
  | zero => exact absurd hfuel (Nat.not_lt_zero _)
  | succ fuel ih =>
    rw [freeDelivered]
    split_ifs with hslot
    · have hlt := RxManager.deliveredCount_clearPdu hsize hslot
      have hsize' : 0 < (rx.clearPdu rxNext).size := hsize
      exact ih hsize' (by omega) _ _
    · exact ⟨_, rfl⟩

/-- The second loop keeps the ring and stops at a sequence number. -/
theorem freeDelivered_spec {snModulus : ℕ} (hmod : 0 < snModulus) {rx rx' : RxManager}
    {rxNext rxNext' count count' : ℕ} (hlt : rxNext < snModulus)
    (h : freeDelivered snModulus fuel rx rxNext count = some (rx', rxNext', count')) :
    rx'.size = rx.size ∧ rxNext' < snModulus := by
  induction fuel generalizing rx rxNext count with
  | zero => cases h
  | succ fuel ih =>
    rw [freeDelivered] at h
    split_ifs at h with hslot
    · obtain ⟨hsize, hlt'⟩ := ih (Nat.mod_lt _ hmod) h
      exact ⟨hsize, hlt'⟩
    · cases h
      exact ⟨rfl, hlt⟩

/-! ### Reception -/

section Frames

/-- What the reception of data does with the window. -/
def rxCore (e : AmEntity) : AmConfig × ℕ × ℕ × RxManager × ℤ :=
  (e.cfg, e.rxNext, e.rxHighestStatus, e.rx, e.rxSize)

theorem RxInv.congr (h : e.RxInv) (heq : e'.rxCore = e.rxCore) : e'.RxInv := by
  simp only [rxCore, Prod.mk.injEq] at heq
  obtain ⟨hcfg, hnext, -, hrx, -⟩ := heq
  refine ⟨?_, ?_, ?_⟩
  · rw [hrx, hcfg, h.size_eq]
  · rw [hrx, hnext, h.snStart_eq]
  · rw [hnext, hcfg]
    exact h.rxNext_lt

@[simp] theorem rxCore_updateNextHighest : (e.updateNextHighest x).rxCore = e.rxCore := by
  rw [updateNextHighest]
  split_ifs <;> rfl

@[simp] theorem rxCore_stopTReassembly : e.stopTReassembly.rxCore = e.rxCore := by
  rw [stopTReassembly]
  split_ifs <;> rfl

@[simp] theorem rxCore_startTReassembly : (e.startTReassembly sn).rxCore = e.rxCore := by
  rw [startTReassembly]
  split_ifs <;> rfl

@[simp] theorem rxCore_updateTReassembly : e.updateTReassembly.rxCore = e.rxCore := by
  rw [updateTReassembly]
  split_ifs <;> simp

@[simp] theorem rxCore_poll (p : Bool) : (e.poll p).rxCore = e.rxCore := by
  rw [poll]
  split_ifs <;> rfl

@[simp] theorem rx_updateNextHighest : (e.updateNextHighest x).rx = e.rx := by
  rw [updateNextHighest]
  split_ifs <;> rfl

@[simp] theorem rxHighestStatus_updateNextHighest :
    (e.updateNextHighest x).rxHighestStatus = e.rxHighestStatus := by
  rw [updateNextHighest]
  split_ifs <;> rfl

theorem rxCore_reassembleAndDeliver : (e.reassembleAndDeliver x).rxCore =
    (e.cfg, e.rxNext, e.rxHighestStatus,
      e.rx.setPduFromSn x ((e.rx.getPduFromSn x).map Pdu.processed),
      e.rxSize - ((e.rx.getPduFromSn x).map fun pdu => (pdu.size : ℤ)).sum) := by
  rw [reassembleAndDeliver]
  split <;> rfl

theorem rx_reassembleAndDeliver : (e.reassembleAndDeliver x).rx =
    e.rx.setPduFromSn x ((e.rx.getPduFromSn x).map Pdu.processed) := by
  rw [reassembleAndDeliver]
  split <;> rfl

theorem rxHighestStatus_reassembleAndDeliver :
    (e.reassembleAndDeliver x).rxHighestStatus = e.rxHighestStatus := by
  rw [reassembleAndDeliver]
  split <;> rfl

theorem RxInv.reassembleAndDeliver (h : e.RxInv) (x : ℕ) : (e.reassembleAndDeliver x).RxInv := by
  rw [AmEntity.reassembleAndDeliver]
  split <;> exact ⟨h.size_eq, h.snStart_eq, h.rxNext_lt⟩

theorem RxInv.updateHighestStatus (h : e.RxInv) (he : e.updateHighestStatus fuel x = some e') :
    e'.RxInv := by
  rw [AmEntity.updateHighestStatus] at he
  split_ifs at he
  · obtain ⟨sn, -, rfl⟩ := Option.map_eq_some_iff.mp he
    exact ⟨h.size_eq, h.snStart_eq, h.rxNext_lt⟩
  · cases he
    exact h

theorem RxInv.updateRxNext (h : e.RxInv) (he : e.updateRxNext fuel x = some e') : e'.RxInv := by
  rw [AmEntity.updateRxNext] at he
  split_ifs at he
  · obtain ⟨⟨rx, rxNext, count⟩, hfree, rfl⟩ := Option.map_eq_some_iff.mp he
    obtain ⟨hsize, hlt⟩ := freeDelivered_spec e.cfg.snModulus_pos h.rxNext_lt hfree
    exact ⟨hsize.trans h.size_eq, rfl, hlt⟩
  · cases he
    exact h

theorem RxInv.receptionActions (h : e.RxInv) (he : e.receptionActions fuel x = some e') :
    e'.RxInv := by
  obtain ⟨e₁, he₁, rfl⟩ := Option.map_eq_some_iff.mp he
  refine RxInv.congr ?_ rxCore_updateTReassembly
  have h' : (e.updateNextHighest x).RxInv := h.congr rxCore_updateNextHighest
  split_ifs at he₁
  · obtain ⟨e₂, he₂, hnext⟩ := Option.bind_eq_some_iff.mp he₁
    exact ((h'.reassembleAndDeliver x).updateHighestStatus he₂).updateRxNext hnext
  · cases he₁
    exact h'

end Frames

theorem sduDelivered_processed {l : List Pdu} (h : sduFull l = true) :
    sduDelivered (l.map Pdu.processed) = true := by
  cases l with
  | nil => simp [sduFull, fullFrom] at h
  | cons pdu rest => rfl

/-- The loop over the head of the window ends. -/
theorem RxInv.exists_updateRxNext (h : e.RxInv) (hfuel : e.rx.size < fuel) (x : ℕ) :
    ∃ e', e.updateRxNext fuel x = some e' := by
  rw [AmEntity.updateRxNext]
  split_ifs
  · have hcount : e.rx.deliveredCount ≤ e.rx.size := by
      simpa [RxManager.deliveredCount] using Finset.card_filter_le (Finset.range e.rx.size)
        fun p => sduDelivered (e.rx.rxList p) = true
    obtain ⟨r, hr⟩ := exists_freeDelivered e.cfg.snModulus h.size_pos
      (hcount.trans_lt hfuel) e.rxNext 0
    rw [hr]
    exact ⟨_, rfl⟩
  · exact ⟨e, rfl⟩

/-- A completed SDU is dealt with unless it is `rx_highest_status` and fills the ring. -/
theorem RxInv.completeSdu_iff (h : e.RxInv) (hfull : sduFull (e.rx.getPduFromSn x) = true) :
    (∃ fuel e', e.completeSdu fuel x = some e') ↔ ¬ (x = e.rxHighestStatus ∧
      ∀ p < e.rx.size, p ≠ e.rx.getPos x → sduDelivered (e.rx.rxList p) = true) := by
  have hinv := h.reassembleAndDeliver x
  have hall : (e.reassembleAndDeliver x).rx.AllDelivered ↔
      ∀ p < e.rx.size, p ≠ e.rx.getPos x → sduDelivered (e.rx.rxList p) = true := by
    rw [rx_reassembleAndDeliver]
    exact RxManager.allDelivered_set (sduDelivered_processed hfull)
  constructor
  · rintro ⟨fuel, e', he⟩ ⟨hx, hothers⟩
    obtain ⟨e₁, he₁, -⟩ := Option.bind_eq_some_iff.mp he
    rw [AmEntity.updateHighestStatus, rxHighestStatus_reassembleAndDeliver, if_pos hx,
      skipDelivered_eq_none (hall.mpr hothers) hinv.size_pos] at he₁
    cases he₁
  · intro hne
    obtain ⟨e₁, he₁⟩ : ∃ e₁, (e.reassembleAndDeliver x).updateHighestStatus
        ((e.reassembleAndDeliver x).rx.size + 1) x = some e₁ := by
      rw [AmEntity.updateHighestStatus, rxHighestStatus_reassembleAndDeliver]
      split_ifs with hx
      · have hsome : ¬ (e.reassembleAndDeliver x).rx.AllDelivered :=
          fun hdel => hne ⟨hx, hall.mp hdel⟩
        obtain ⟨sn, hsn⟩ := hinv.exists_skipDelivered hsome e.rxHighestStatus (Nat.le_succ _)
        rw [hsn]
        exact ⟨_, rfl⟩
      · exact ⟨_, rfl⟩
    have hsize : e₁.rx.size = (e.reassembleAndDeliver x).rx.size := by
      rw [AmEntity.updateHighestStatus] at he₁
      split_ifs at he₁
      · obtain ⟨sn, -, rfl⟩ := Option.map_eq_some_iff.mp he₁
        rfl
      · cases he₁
        rfl
    have hfuel : e₁.rx.size < (e.reassembleAndDeliver x).rx.size + 1 := by omega
    obtain ⟨e₂, he₂⟩ := (hinv.updateHighestStatus he₁).exists_updateRxNext hfuel x
    refine ⟨(e.reassembleAndDeliver x).rx.size + 1, e₂, ?_⟩
    rw [AmEntity.completeSdu, he₁]
    exact he₂

/-! ### Accepted PDUs -/

/-- A buffer holds a data PDU that the entity puts into its slot. -/
def Accepts (e : AmEntity) (buffer : List UInt8) (pdu : Pdu) : Prop :=
  ∃ d p, (Decoder.init buffer).getBits 1 = some (1, d) ∧
    parseDataPdu e.cfg d = (p, some pdu) ∧ e.accepts pdu = true

/-- A PDU completes the SDU `rx_highest_status`, and every other slot of the ring holds a delivered
SDU. -/
def FillsRing (e : AmEntity) (pdu : Pdu) : Prop :=
  pdu.sn = e.rxHighestStatus ∧ sduFull ((e.rx.addPdu pdu).getPduFromSn pdu.sn) = true ∧
    ∀ p < e.rx.size, p ≠ e.rx.getPos pdu.sn → sduDelivered (e.rx.rxList p) = true

theorem RxInv.addPdu (h : e.RxInv) (pdu : Pdu) : (e.addPdu pdu).RxInv :=
  ⟨h.size_eq, h.snStart_eq, h.rxNext_lt⟩

/-- The other slots are those of before. -/
theorem rxList_addPdu {m : RxManager} {pdu : Pdu} {p : ℕ} (hp : p ≠ m.getPos pdu.sn) :
    (m.addPdu pdu).rxList p = m.rxList p :=
  Function.update_of_ne hp _ _

theorem RxInv.receptionActions_iff (h : e.RxInv) (pdu : Pdu) :
    (∃ fuel e', (e.addPdu pdu).receptionActions fuel pdu.sn = some e') ↔ ¬ e.FillsRing pdu := by
  have hinv : ((e.addPdu pdu).updateNextHighest pdu.sn).RxInv :=
    (h.addPdu pdu).congr rxCore_updateNextHighest
  by_cases hfull : sduFull ((e.rx.addPdu pdu).getPduFromSn pdu.sn) = true
  · have hothers : (∀ p < e.rx.size, p ≠ (e.rx.addPdu pdu).getPos pdu.sn →
          sduDelivered ((e.rx.addPdu pdu).rxList p) = true) ↔
        ∀ p < e.rx.size, p ≠ e.rx.getPos pdu.sn → sduDelivered (e.rx.rxList p) = true := by
      refine forall₃_congr fun p _ hp => ?_
      rw [rxList_addPdu (m := e.rx) hp]
    have hiff := hinv.completeSdu_iff (x := pdu.sn) (by rw [rx_updateNextHighest]; exact hfull)
    rw [rx_updateNextHighest, rxHighestStatus_updateNextHighest] at hiff
    calc (∃ fuel e', (e.addPdu pdu).receptionActions fuel pdu.sn = some e')
        ↔ ∃ fuel e', ((e.addPdu pdu).updateNextHighest pdu.sn).completeSdu fuel pdu.sn =
            some e' := by
          refine exists_congr fun fuel => ?_
          rw [AmEntity.receptionActions, rx_updateNextHighest]
          simp only [show sduFull ((e.addPdu pdu).rx.getPduFromSn pdu.sn) = true from hfull,
            if_true, Option.map_eq_some_iff]
          constructor
          · rintro ⟨_, e₁, he₁, -⟩
            exact ⟨e₁, he₁⟩
          · rintro ⟨e₁, he₁⟩
            exact ⟨_, e₁, he₁, rfl⟩
      _ ↔ _ := hiff
      _ ↔ ¬ e.FillsRing pdu := by
          refine not_congr ?_
          rw [FillsRing, ← hothers]
          exact ⟨fun h => ⟨h.1, hfull, h.2⟩, fun h => ⟨h.1, h.2.2⟩⟩
  · refine iff_of_true ⟨0, ((e.addPdu pdu).updateNextHighest pdu.sn).updateTReassembly, ?_⟩
      fun hfills => hfull hfills.2.1
    rw [AmEntity.receptionActions, rx_updateNextHighest,
      if_neg (show ¬ sduFull ((e.addPdu pdu).rx.getPduFromSn pdu.sn) = true from hfull)]
    rfl

theorem Accepts.recvPdu_iff {buffer : List UInt8} {pdu : Pdu} (h : e.Accepts buffer pdu) :
    (∃ fuel e', e.recvPdu fuel buffer = some e') ↔
      ∃ fuel e', (e.addPdu pdu).receptionActions fuel pdu.sn = some e' := by
  obtain ⟨d, p, hdc, hparse, haccepts⟩ := h
  refine exists_congr fun fuel => ?_
  have hrecv : e.recvPdu fuel buffer =
      ((e.addPdu pdu).receptionActions fuel pdu.sn).map (·.poll p) := by
    simp only [recvPdu, hdc, recvDataPdu, hparse, haccepts, one_ne_zero, if_false, if_true]
  rw [hrecv]
  simp only [Option.map_eq_some_iff]
  constructor
  · rintro ⟨_, e₁, he₁, -⟩
    exact ⟨e₁, he₁⟩
  · rintro ⟨e₁, he₁⟩
    exact ⟨_, e₁, he₁, rfl⟩

end AmEntity

/-! ### Runs -/

def AmOp.IsReception : AmOp → Prop
  | .recvPdu buffer => ∃ d, (Decoder.init buffer).getBits 1 = some (1, d)
  | .setTime _ => True
  | _ => False

/-- A run of data PDUs and time steps. -/
abbrev ReceiveRun (cfg : AmConfig) (ops : List AmOp) (e : AmEntity) : Prop :=
  Run.Reach (fun op e e' => op.IsReception ∧ ∃ fuel, e.op fuel op = some e')
    (· = AmEntity.new cfg) ops e

/-- The reception of every accepted PDU returns, in every state of a run. -/
def ReceptionTerminates : Prop :=
  ∀ cfg ops e, ReceiveRun cfg ops e → ∀ buffer pdu, e.Accepts buffer pdu →
    ∃ fuel e', e.recvPdu fuel buffer = some e'

namespace AmEntity

variable {e e' : AmEntity} {fuel : ℕ}

theorem RxInv.recvDataPdu (h : e.RxInv) {d : Decoder} (he : e.recvDataPdu fuel d = some e') :
    e'.RxInv := by
  rw [AmEntity.recvDataPdu] at he
  split at he
  · cases he
    exact h.congr (rxCore_poll _)
  · split_ifs at he
    · obtain ⟨e₁, he₁, rfl⟩ := Option.map_eq_some_iff.mp he
      exact ((h.addPdu _).receptionActions he₁).congr (rxCore_poll _)
    · cases he
      exact h.congr (rxCore_poll _)

theorem RxInv.checkTReassembly (h : e.RxInv) (he : e.checkTReassembly fuel = some e') :
    e'.RxInv := by
  rw [AmEntity.checkTReassembly] at he
  split_ifs at he
  · cases he
    exact h
  · obtain ⟨sn, -, rfl⟩ := Option.map_eq_some_iff.mp he
    have hinv : RxInv { e with
        tReassemblyStart := 0, rxHighestStatus := sn, statusTriggered := true } :=
      ⟨h.size_eq, h.snStart_eq, h.rxNext_lt⟩
    exact hinv.congr rxCore_startTReassembly

/-- Without a poll the poll timer does nothing. -/
theorem checkTPollRetransmit_of_zero (h : e.tPollRetransmitStart = 0) :
    e.checkTPollRetransmit = some e := by
  have hexpired : e.pollRetransmitExpired = false := by simp [pollRetransmitExpired, h]
  rw [checkTPollRetransmit, if_pos hexpired]

end AmEntity

/-- The invariant of the receiving side holds all along a run. -/
theorem ReceiveRun.rxInv {cfg : AmConfig} {ops : List AmOp} {e : AmEntity}
    (h : ReceiveRun cfg ops e) : e.RxInv ∧ e.tPollRetransmitStart = 0 := by
  refine Run.Reach.invariant (I := fun e => e.RxInv ∧ e.tPollRetransmitStart = 0) h ?_ ?_
  · rintro _ rfl
    exact ⟨⟨rfl, rfl, cfg.snModulus_pos⟩, rfl⟩
  · rintro op e e' ⟨hinv, hpoll⟩ ⟨hreception, fuel, he⟩
    have htimer : ∀ {e₁ e₂ : AmEntity}, e₂.txSide = e₁.txSide → e₁.tPollRetransmitStart = 0 →
        e₂.tPollRetransmitStart = 0 := by
      intro e₁ e₂ heq hzero
      exact (congrArg AmEntity.TxSide.tPollRetransmitStart heq).trans hzero
    cases op with
    | recvPdu buffer =>
      obtain ⟨d, hd⟩ := hreception
      have hdata : e.recvDataPdu fuel d = some e' := by
        simpa only [AmEntity.op, AmEntity.recvPdu, hd, one_ne_zero, if_false] using he
      exact ⟨hinv.recvDataPdu hdata, htimer (AmEntity.txSide_recvDataPdu hdata) hpoll⟩
    | setTime now =>
      have hcheck : { e with tCurrent := now }.checkTReassembly fuel = some e' := by
        simpa [AmEntity.op, AmEntity.setTime,
          AmEntity.checkTPollRetransmit_of_zero (e := { e with tCurrent := now }) hpoll] using he
      have hinv' : AmEntity.RxInv { e with tCurrent := now } :=
        ⟨hinv.size_eq, hinv.snStart_eq, hinv.rxNext_lt⟩
      exact ⟨hinv'.checkTReassembly hcheck,
        htimer (AmEntity.txSide_checkTReassembly hcheck) hpoll⟩
    | recvSdu _ _ => cases hreception
    | generatePdu _ => cases hreception
    | discardSdu _ => cases hreception

/-- In every state of a run, the reception of an accepted PDU returns exactly when it does not fill
the ring. -/
theorem terminates_iff (cfg : AmConfig) (ops : List AmOp) (e : AmEntity)
    (hrun : ReceiveRun cfg ops e) (buffer : List UInt8) (pdu : Pdu) (hpdu : e.Accepts buffer pdu) :
    (∃ fuel e', e.recvPdu fuel buffer = some e') ↔ ¬ e.FillsRing pdu := by
  rw [hpdu.recvPdu_iff]
  exact hrun.rxInv.1.receptionActions_iff pdu

/-! ### A full window -/

/-- A configuration with 12 bit sequence numbers. -/
def exampleCfg : AmConfig := ⟨.sn12, 45, 35, 0, none, none, 32, 100000, 100000⟩

/-- A data PDU with a complete SDU of one byte. -/
def dataBuffer (sn : ℕ) : List UInt8 := [.ofNat (128 + sn / 256), .ofNat (sn % 256), 0]

/-- The segment of the PDU. -/
def dataPdu (sn : ℕ) : Pdu := ⟨sn, 0, 1, true, true, some [0]⟩

theorem parse_dataBuffer {sn : ℕ} (h : sn < 2048) :
    ∃ d, (Decoder.init (dataBuffer sn)).getBits 1 = some (1, d) ∧
      AmEntity.parseDataPdu exampleCfg d = (false, some (dataPdu sn)) := by
  have hsize : UInt8.size = 256 := rfl
  have hhigh : (UInt8.ofNat (128 + sn / 256)).toNat = 128 + sn / 256 :=
    UInt8.toNat_ofNat_of_lt' (by omega)
  have hlow : (UInt8.ofNat (sn % 256)).toNat = sn % 256 := UInt8.toNat_ofNat_of_lt' (by omega)
  have hfirst : (dataBuffer sn)[0]? = some (.ofNat (128 + sn / 256)) := rfl
  have hsecond : (dataBuffer sn)[1]? = some (.ofNat (sn % 256)) := rfl
  have hdc : (Decoder.init (dataBuffer sn)).getBits 1 = some (1, ⟨dataBuffer sn, 0, 1⟩) := by
    rw [Decoder.getBits, Decoder.init, Decoder.getBitsFrom_inByte hfirst 0 (by omega) (by omega),
      hhigh]
    simp
    omega
  have hp : Decoder.getBits ⟨dataBuffer sn, 0, 1⟩ 1 = some (0, ⟨dataBuffer sn, 0, 2⟩) := by
    rw [Decoder.getBits, Decoder.getBitsFrom_inByte hfirst 0 (by omega) (by omega), hhigh]
    simp
    omega
  have hsi : Decoder.getBits ⟨dataBuffer sn, 0, 2⟩ 2 = some (0, ⟨dataBuffer sn, 0, 4⟩) := by
    rw [Decoder.getBits, Decoder.getBitsFrom_inByte hfirst 0 (by omega) (by omega), hhigh]
    simp
    omega
  have hsn : Decoder.getBits ⟨dataBuffer sn, 0, 4⟩ 12 = some (sn, ⟨dataBuffer sn, 2, 0⟩) := by
    rw [Decoder.getBits, Decoder.getBitsFrom_add 0 4 8,
      Decoder.getBitsFrom_inByte hfirst 0 (by omega) (by omega), hhigh]
    simp only [Option.bind_some, Nat.reduceAdd, if_true]
    rw [Decoder.getBitsFrom_inByte hsecond _ (by omega) (by omega), hlow]
    simp
    omega
  have hreserved : Decoder.getBits ⟨dataBuffer sn, 0, 4⟩ 0 =
      some (0, ⟨dataBuffer sn, 0, 4⟩) := rfl
  refine ⟨_, hdc, ?_⟩
  simp only [AmEntity.parseDataPdu, hp, hsi, exampleCfg, hreserved, hsn, SnFieldLength.bits,
    reduceCtorEq, if_false, Option.bind_eq_bind, Option.bind_some]
  rfl

/-- The SDUs `1` to `k` have been received and delivered, and `0` has not. -/
structure ReceivedTo (k : ℕ) (e : AmEntity) : Prop where
  cfg : e.cfg = exampleCfg
  rxNext : e.rxNext = 0
  rxHighestStatus : e.rxHighestStatus = 0
  start : e.rx.start = 0
  snStart : e.rx.snStart = 0
  size : e.rx.size = 2048
  rxSize : e.rxSize = 0
  delivered : ∀ p, 0 < p → p ≤ k → sduDelivered (e.rx.rxList p) = true
  empty : ∀ p, p = 0 ∨ k < p → e.rx.rxList p = []

namespace ReceivedTo

variable {k sn : ℕ} {e : AmEntity}

theorem getPos_eq (h : ReceivedTo k e) (hsn : sn < 2048) : e.rx.getPos sn = sn := by
  rw [RxManager.getPos, h.start, h.snStart, h.size]
  omega

/-- A sequence number of the window that has not been received is accepted. -/
theorem accepts (h : ReceivedTo k e) (hsn : sn < 2048) (hnew : sn = 0 ∨ k < sn) :
    e.Accepts (dataBuffer sn) (dataPdu sn) := by
  obtain ⟨d, hdc, hparse⟩ := parse_dataBuffer hsn
  refine ⟨d, false, hdc, by rw [h.cfg, hparse], ?_⟩
  have hwindow : e.snInRecvWindow sn = true := by
    have hsize : exampleCfg.windowSize = 2048 := rfl
    simpa [AmEntity.snInRecvWindow, AmEntity.modulusRx, Window.offset, h.rxNext, h.cfg, hsize]
      using hsn
  have hslot : e.rx.getPduFromSn sn = [] := by
    rw [RxManager.getPduFromSn, h.getPos_eq hsn]
    exact h.empty sn hnew
  have hroom : ¬ e.rxSize + ((dataPdu sn).size : ℤ) > e.cfg.rxMaxsize := by
    rw [h.rxSize, h.cfg]
    change ¬ (0 : ℤ) + 1 > 100000
    omega
  simp only [AmEntity.accepts, decide_eq_false hroom, Bool.not_false, Bool.true_and]
  simp [dataPdu, hwindow, hslot, segmentAlreadyReceived]

/-- The segment of a new PDU is alone in its slot. -/
theorem getPduFromSn_addPdu (h : ReceivedTo k e) (hsn : sn < 2048) (hnew : sn = 0 ∨ k < sn) :
    (e.rx.addPdu (dataPdu sn)).getPduFromSn sn = [dataPdu sn] := by
  have hslot : e.rx.getPduFromSn sn = [] := by
    rw [RxManager.getPduFromSn, h.getPos_eq hsn]
    exact h.empty sn hnew
  have hadd : e.rx.addPdu (dataPdu sn) = e.rx.setPduFromSn sn [dataPdu sn] := by
    rw [RxManager.addPdu, show (dataPdu sn).sn = sn from rfl, hslot]
    rfl
  rw [hadd, RxManager.getPduFromSn, RxManager.getPos_setPduFromSn]
  exact Function.update_self _ _ _

/-- The ring after the reception of the next SDU. -/
def nextRing (k : ℕ) (m : RxManager) : RxManager :=
  (m.addPdu (dataPdu (k + 1))).setPduFromSn (k + 1) ([dataPdu (k + 1)].map Pdu.processed)

/-- The next SDU is reassembled, and neither `rx_highest_status` nor `rx_next` is that SDU. -/
theorem exists_recvPdu (h : ReceivedTo k e) (hk : k + 1 < 2048) :
    ∃ fuel e', e.recvPdu fuel (dataBuffer (k + 1)) = some e' ∧
      e'.rxCore = (e.cfg, e.rxNext, e.rxHighestStatus, nextRing k e.rx, e.rxSize) := by
  obtain ⟨d, p, hdc, hparse, haccepts⟩ := h.accepts hk (.inr k.lt_succ_self)
  have hslot := h.getPduFromSn_addPdu hk (.inr k.lt_succ_self)
  set e₁ := (e.addPdu (dataPdu (k + 1))).updateNextHighest (k + 1)
  have hrx : e₁.rx = e.rx.addPdu (dataPdu (k + 1)) := AmEntity.rx_updateNextHighest
  have hcore : e₁.rxCore = (e.cfg, e.rxNext, e.rxHighestStatus, e.rx.addPdu (dataPdu (k + 1)),
      e.rxSize + 1) := AmEntity.rxCore_updateNextHighest
  simp only [AmEntity.rxCore, Prod.mk.injEq] at hcore
  obtain ⟨hcfg, hnext, hstatus, -, hsize⟩ := hcore
  have hcore' := AmEntity.rxCore_reassembleAndDeliver (e := e₁) (x := k + 1)
  have hfull : sduFull (e₁.rx.getPduFromSn (k + 1)) = true := by
    rw [hrx, hslot]
    rfl
  have hcomplete : e₁.completeSdu 0 (k + 1) = some (e₁.reassembleAndDeliver (k + 1)) := by
    simp only [AmEntity.rxCore, Prod.mk.injEq] at hcore'
    obtain ⟨-, hnext', hstatus', -, -⟩ := hcore'
    rw [AmEntity.completeSdu, AmEntity.updateHighestStatus, hstatus', hstatus, h.rxHighestStatus,
      if_neg (Nat.succ_ne_zero k), Option.bind_some, AmEntity.updateRxNext, hnext', hnext,
      h.rxNext, if_neg (Nat.succ_ne_zero k)]
  refine ⟨0, ((e₁.reassembleAndDeliver (k + 1)).updateTReassembly).poll p, ?_, ?_⟩
  · simp only [AmEntity.recvPdu, hdc, AmEntity.recvDataPdu, hparse, haccepts, one_ne_zero, if_false,
      if_true, AmEntity.receptionActions]
    rw [show (dataPdu (k + 1)).sn = k + 1 from rfl]
    change Option.map _ (Option.map _ (if sduFull (e₁.rx.getPduFromSn (k + 1)) = true then
      e₁.completeSdu 0 (k + 1) else some e₁)) = _
    rw [if_pos hfull, hcomplete]
    rfl
  · rw [AmEntity.rxCore_poll, AmEntity.rxCore_updateTReassembly, hcore', hrx, hslot, hcfg, hnext,
      hstatus, hsize]
    simp [nextRing, dataPdu]

/-- Only the slot of the next SDU changes, and it holds a delivered SDU. -/
theorem rxList_nextRing (h : ReceivedTo k e) (hk : k + 1 < 2048) (p : ℕ) :
    (nextRing k e.rx).rxList p =
      if p = k + 1 then [dataPdu (k + 1)].map Pdu.processed else e.rx.rxList p := by
  have hpos : e.rx.getPos (k + 1) = k + 1 := h.getPos_eq hk
  split_ifs with hp
  · rw [nextRing, RxManager.setPduFromSn, hp]
    exact (congrArg _ hpos.symm).trans (Function.update_self _ _ _)
  · rw [← hpos] at hp
    exact (Function.update_of_ne hp _ _).trans (AmEntity.rxList_addPdu hp)

/-- The next SDU behind the ones that were delivered is delivered, and the window stays. -/
theorem recvPdu (h : ReceivedTo k e) (hk : k + 1 < 2048) :
    ∃ fuel e', e.recvPdu fuel (dataBuffer (k + 1)) = some e' ∧ ReceivedTo (k + 1) e' := by
  obtain ⟨fuel, e', hrecv, hcore⟩ := h.exists_recvPdu hk
  simp only [AmEntity.rxCore, Prod.mk.injEq] at hcore
  obtain ⟨hcfg, hnext, hstatus, hrx, hsize⟩ := hcore
  refine ⟨fuel, e', hrecv, hcfg.trans h.cfg, hnext.trans h.rxNext,
    hstatus.trans h.rxHighestStatus, ?_, ?_, ?_, hsize.trans h.rxSize, ?_, ?_⟩
  · rw [hrx]
    exact h.start
  · rw [hrx]
    exact h.snStart
  · rw [hrx]
    exact h.size
  · intro p hp hle
    rw [hrx, h.rxList_nextRing hk]
    split_ifs with heq
    · rfl
    · exact h.delivered p hp (by omega)
  · intro p hp
    rw [hrx, h.rxList_nextRing hk, if_neg (by omega)]
    exact h.empty p (by omega)

end ReceivedTo

/-- A run that receives the SDUs `1` to `k`. -/
theorem exists_receivedTo {k : ℕ} (hk : k < 2048) :
    ∃ ops e, ReceiveRun exampleCfg ops e ∧ ReceivedTo k e := by
  induction k with
  | zero =>
    refine ⟨[], AmEntity.new exampleCfg, .start rfl, rfl, rfl, rfl, rfl, rfl, rfl, rfl, ?_, ?_⟩
    · intro p hp hle
      omega
    · exact fun _ _ => rfl
  | succ k ih =>
    obtain ⟨ops, e, hrun, he⟩ := ih (by omega)
    obtain ⟨fuel, e', hrecv, he'⟩ := he.recvPdu hk
    obtain ⟨d, hdc, -⟩ := parse_dataBuffer hk
    have hop : (AmOp.recvPdu (dataBuffer (k + 1))).IsReception := ⟨d, hdc⟩
    have hstep : e.op fuel (.recvPdu (dataBuffer (k + 1))) = some e' := hrecv
    exact ⟨_, e', hrun.step ⟨hop, fuel, hstep⟩, he'⟩

/-- After the SDUs `1` to `2047`, the SDU `0` fills the ring, and its reception does not return. -/
theorem not_receptionTerminates : ¬ ReceptionTerminates := by
  intro hterm
  obtain ⟨ops, e, hrun, he⟩ := exists_receivedTo (k := 2047) (by omega)
  have haccepts : e.Accepts (dataBuffer 0) (dataPdu 0) := he.accepts (by omega) (.inl rfl)
  have hfills : e.FillsRing (dataPdu 0) := by
    refine ⟨he.rxHighestStatus.symm, ?_, ?_⟩
    · rw [show (dataPdu 0).sn = 0 from rfl, he.getPduFromSn_addPdu (by omega) (.inl rfl)]
      rfl
    · intro p hp hne
      rw [show (dataPdu 0).sn = 0 from rfl, he.getPos_eq (by omega)] at hne
      rw [he.size] at hp
      exact he.delivered p (by omega) (by omega)
  obtain ⟨fuel, e', hrecv⟩ := hterm _ _ _ hrun _ _ haccepts
  have hactions := haccepts.recvPdu_iff.mp ⟨fuel, e', hrecv⟩
  exact (hrun.rxInv.1.receptionActions_iff (dataPdu 0)).mp hactions hfills

/-- The first PDU of an entity is received. -/
theorem terminates_new :
    (AmEntity.new exampleCfg).Accepts (dataBuffer 0) (dataPdu 0) ∧
      ∃ fuel e', (AmEntity.new exampleCfg).recvPdu fuel (dataBuffer 0) = some e' := by
  have hnew : ReceivedTo 0 (AmEntity.new exampleCfg) :=
    ⟨rfl, rfl, rfl, rfl, rfl, rfl, rfl, fun p hp hle => by omega, fun _ _ => rfl⟩
  have haccepts : (AmEntity.new exampleCfg).Accepts (dataBuffer 0) (dataPdu 0) :=
    hnew.accepts (by omega) (.inl rfl)
  refine ⟨haccepts, (terminates_iff exampleCfg [] _ (.start rfl) _ _ haccepts).mpr ?_⟩
  rintro ⟨-, -, hothers⟩
  have hone := hothers 1 (by decide) (by decide)
  cases hone

end LlmHric.Rlc
