import LlmHric.Rlc.ReceiveBuffer
import LlmHric.Rlc.ReceiveSide

/-! The variables of the receiving side stay in order: `rx_next`, `rx_highest_status`,
`rx_next_highest`, and the end of the window. Every slot holds segments of its own sequence number,
the slots from `rx_next_highest` on are empty, the one before it is not, and neither `rx_next` nor
`rx_highest_status` has been delivered. -/

namespace LlmHric.Rlc

/-! ### Slots -/

namespace RxManager

variable {m : RxManager} {sn k x : ℕ}

/-- The slots of consecutive sequence numbers. -/
theorem getPos_add (hstart : m.snStart ≤ m.size * 2) (hsn : sn < 2 * m.size) (k : ℕ) :
    m.getPos ((sn + k) % (2 * m.size)) = (m.getPos sn + k) % m.size := by
  induction k with
  | zero =>
    have hlt := getPos_lt (m := m) (by omega) sn
    rw [Nat.add_zero, Nat.add_zero, Nat.mod_eq_of_lt hsn, Nat.mod_eq_of_lt hlt]
  | succ k ih =>
    have hnext : (sn + (k + 1)) % (2 * m.size) = ((sn + k) % (2 * m.size) + 1) % (2 * m.size) := by
      rw [Nat.mod_add_mod]
      rfl
    rw [hnext, getPos_succ hstart, ih, Nat.mod_add_mod]
    rfl

theorem getPduFromSn_add (hstart : m.snStart ≤ m.size * 2) (hsn : sn < 2 * m.size) (k : ℕ) :
    m.getPduFromSn ((sn + k) % (2 * m.size)) = m.ahead sn k := by
  rw [getPduFromSn, getPos_add hstart hsn, ahead]

/-- The slots come round. -/
theorem ahead_mod (sn k : ℕ) : m.ahead sn (k % m.size) = m.ahead sn k := by
  rw [ahead, ahead, Nat.add_mod_mod]

theorem ahead_set_self (hstart : m.snStart ≤ m.size * 2) (hsn : sn < 2 * m.size) (x : ℕ)
    (l : List Pdu) : (m.setPduFromSn ((sn + x) % (2 * m.size)) l).ahead sn x = l := by
  change Function.update m.rxList (m.getPos ((sn + x) % (2 * m.size))) l
    ((m.getPos sn + x) % m.size) = l
  rw [getPos_add hstart hsn, Function.update_self]

theorem ahead_set_of_ne (hstart : m.snStart ≤ m.size * 2) (hsn : sn < 2 * m.size)
    (hne : k % m.size ≠ x % m.size) (l : List Pdu) :
    (m.setPduFromSn ((sn + x) % (2 * m.size)) l).ahead sn k = m.ahead sn k := by
  change Function.update m.rxList (m.getPos ((sn + x) % (2 * m.size))) l
    ((m.getPos sn + k) % m.size) = m.rxList ((m.getPos sn + k) % m.size)
  refine Function.update_of_ne (fun heq => hne ?_) _ _
  rw [getPos_add hstart hsn] at heq
  exact Nat.ModEq.add_left_cancel' _ heq

/-- Moving the ring and its first sequence number. -/
theorem ahead_advance (hsn : m.snStart < 2 * m.size) (count k : ℕ) :
    ((m.advance count).setStart ((m.snStart + count) % (2 * m.size))).ahead
      ((m.snStart + count) % (2 * m.size)) k = m.ahead m.snStart (count + k) := by
  have hnew : (m.snStart + count) % (2 * m.size) + m.size * 2 - (m.snStart + count) % (2 * m.size) =
      m.size * 2 := by omega
  have hold : m.snStart + m.size * 2 - m.snStart = m.size * 2 := by omega
  change m.rxList ((((m.start + count) % m.size + ((m.snStart + count) % (2 * m.size) + m.size * 2 -
    (m.snStart + count) % (2 * m.size))) % m.size + k) % m.size) =
      m.rxList (((m.start + (m.snStart + m.size * 2 - m.snStart)) % m.size + (count + k)) % m.size)
  rw [hnew, hold, Nat.add_mul_mod_self_left, Nat.add_mul_mod_self_left, Nat.mod_mod,
    Nat.mod_add_mod, Nat.mod_add_mod, Nat.add_assoc]

end RxManager

namespace AmEntity

variable {e e' : AmEntity} {fuel s h x : ℕ}

theorem RxInv.snModulus_eq (hring : e.RxInv) : e.cfg.snModulus = 2 * e.rx.size := by
  rw [hring.size_eq, e.cfg.snModulus_eq]

theorem RxInv.start_le (hring : e.RxInv) : e.rx.snStart ≤ e.rx.size * 2 := by
  have hlt := hring.rxNext_lt
  rw [hring.snModulus_eq] at hlt
  rw [hring.snStart_eq]
  omega

theorem RxInv.rxNext_lt' (hring : e.RxInv) : e.rxNext < 2 * e.rx.size :=
  hring.snModulus_eq ▸ hring.rxNext_lt

/-- The slot of a number is as far ahead as the number is. -/
theorem RxInv.getPduFromSn_ahead (hring : e.RxInv) (k : ℕ) :
    e.rx.getPduFromSn ((e.rxNext + k) % e.cfg.snModulus) = e.rx.ahead e.rxNext k := by
  rw [hring.snModulus_eq]
  exact RxManager.getPduFromSn_add hring.start_le hring.rxNext_lt' k

/-! ### The loops -/

/-- The first loop goes over delivered SDUs to one that is not. -/
theorem RxInv.skipDelivered_spec (hring : e.RxInv) {sn' a : ℕ}
    (hskip : e.skipDelivered fuel ((e.rxNext + a) % e.cfg.snModulus) = some sn') :
    ∃ b, a ≤ b ∧ sn' = (e.rxNext + b) % e.cfg.snModulus ∧
      sduDelivered (e.rx.ahead e.rxNext b) = false ∧
      ∀ k, a ≤ k → k < b → sduDelivered (e.rx.ahead e.rxNext k) = true := by
  induction fuel generalizing a with
  | zero => cases hskip
  | succ fuel ih =>
    rw [AmEntity.skipDelivered, hring.getPduFromSn_ahead] at hskip
    split_ifs at hskip with hdel
    · have hnext : e.nextSn ((e.rxNext + a) % e.cfg.snModulus) =
          (e.rxNext + (a + 1)) % e.cfg.snModulus := by
        rw [nextSn, Nat.mod_add_mod]
        rfl
      rw [hnext] at hskip
      obtain ⟨b, hab, hsn, hb, hall⟩ := ih hskip
      refine ⟨b, by omega, hsn, hb, fun k hak hkb => ?_⟩
      rcases Nat.eq_or_lt_of_le hak with rfl | hlt
      · exact hdel
      · exact hall k hlt hkb
    · refine ⟨a, Nat.le_refl a, (Option.some.inj hskip).symm, by simpa using hdel, ?_⟩
      intro k hak hka
      omega

/-- The second loop clears the slots of delivered SDUs up to one that is not, at most a round. -/
theorem freeDelivered_spec' {rx rx' : RxManager} {rxNext rxNext' count count' : ℕ}
    (hsize : 0 < rx.size) (hstart : rx.snStart ≤ rx.size * 2) (hlt : rxNext < 2 * rx.size)
    (hfree : freeDelivered (2 * rx.size) fuel rx rxNext count = some (rx', rxNext', count')) :
    ∃ k ≤ rx.size, rxNext' = (rxNext + k) % (2 * rx.size) ∧ count' = count + k ∧
      rx'.size = rx.size ∧ rx'.start = rx.start ∧ rx'.snStart = rx.snStart ∧
      (∀ i < k, sduDelivered (rx.ahead rxNext i) = true) ∧
      (k < rx.size → sduDelivered (rx.ahead rxNext k) = false) ∧
      (∀ i < k, rx'.ahead rxNext i = []) ∧
      ∀ i < rx.size, k ≤ i → rx'.ahead rxNext i = rx.ahead rxNext i := by
  induction fuel generalizing rx rxNext count with
  | zero => cases hfree
  | succ fuel ih =>
    rw [freeDelivered] at hfree
    split_ifs at hfree with hdel
    · have hzero : rx.ahead rxNext 0 = rx.getPduFromSn rxNext := RxManager.ahead_zero hsize
      have hnext : (rxNext + 1) % (2 * rx.size) < 2 * rx.size := Nat.mod_lt _ (by omega)
      -- the slots after the one that is cleared
      have hclear : ∀ i, (rx.clearPdu rxNext).ahead ((rxNext + 1) % (2 * rx.size)) i =
          (rx.clearPdu rxNext).ahead rxNext (i + 1) :=
        fun i => RxManager.ahead_succ (m := rx.clearPdu rxNext) hstart rxNext i
      have hothers : ∀ i, 0 < i → i < rx.size →
          (rx.clearPdu rxNext).ahead rxNext i = rx.ahead rxNext i :=
        fun i hpos hi => RxManager.ahead_setPduFromSn hsize hpos hi []
      have hself : (rx.clearPdu rxNext).ahead rxNext rx.size = [] :=
        (RxManager.ahead_size (m := rx.clearPdu rxNext) rxNext hsize).trans
          (rx.rxList_setPduFromSn_self rxNext [])
      obtain ⟨k, hk, hsn, hcount, hsize', hstart', hsnStart, hall, hstop, hcleared, hrest⟩ :=
        @ih (rx.clearPdu rxNext) _ _ hsize hstart hnext hfree
      change k ≤ rx.size at hk
      have hsize' : rx'.size = rx.size := hsize'
      have hlt' : k < rx.size := by
        refine lt_of_le_of_ne hk fun heq => ?_
        have hlast := hall (k - 1) (by omega)
        rw [hclear, Nat.sub_add_cancel (by omega), heq, hself] at hlast
        cases hlast
      have hahead' : ∀ i, rx'.ahead ((rxNext + 1) % (2 * rx.size)) i =
          rx'.ahead rxNext (i + 1) := by
        intro i
        have hsucc :=
          RxManager.ahead_succ (m := rx') (by rw [hsnStart, hsize']; exact hstart) rxNext i
        rwa [hsize'] at hsucc
      refine ⟨k + 1, hlt', ?_, by omega, hsize', hstart', hsnStart, fun i hi => ?_, fun hk' => ?_,
        fun i hi => ?_, fun i hi hki => ?_⟩
      · rw [hsn]
        change ((rxNext + 1) % (2 * rx.size) + k) % (2 * rx.size) = _
        rw [Nat.mod_add_mod, Nat.add_assoc, Nat.add_comm 1 k]
      · cases i with
        | zero => rwa [hzero]
        | succ i =>
          have hdel' := hall i (by omega)
          rwa [hclear, hothers _ (Nat.succ_pos i) (by omega)] at hdel'
      · have hstop' := hstop hlt'
        rwa [hclear, hothers _ (Nat.succ_pos k) hk'] at hstop'
      · cases i with
        | zero =>
          -- the slot is the last one from the next sequence number on
          have hround : rx'.ahead rxNext 0 = rx'.ahead rxNext rx.size := by
            rw [← RxManager.ahead_mod rxNext rx.size, hsize', Nat.mod_self]
          have hlast := hrest (rx.size - 1) (by change _ < rx.size; omega) (by omega)
          rw [hahead', hclear, Nat.sub_add_cancel (by omega), hself] at hlast
          rw [hround, hlast]
        | succ i =>
          rw [← hahead']
          exact hcleared i (by omega)
      · obtain ⟨i, rfl⟩ := Nat.exists_eq_add_of_le' (Nat.lt_of_lt_of_le (Nat.succ_pos k) hki)
        rw [← hahead', hrest i (by change i < rx.size; omega) (by omega), hclear,
          hothers _ (Nat.succ_pos i) hi]
    · cases hfree
      refine ⟨0, Nat.zero_le _, ?_, rfl, rfl, rfl, rfl, fun i hi => absurd hi (Nat.not_lt_zero i),
        fun _ => ?_, fun i hi => absurd hi (Nat.not_lt_zero i), fun i _ _ => rfl⟩
      · rw [Nat.add_zero, Nat.mod_eq_of_lt hlt]
      · rw [RxManager.ahead_zero hsize]
        simpa using hdel

/-! ### The window -/

/-- The segments in the window, of which `rx_next_highest` lies `h` ahead. -/
structure SlotInv (e : AmEntity) (h : ℕ) : Prop where
  ring : e.RxInv
  nextHighest : e.rxNextHighest = (e.rxNext + h) % e.cfg.snModulus
  le : h ≤ e.cfg.windowSize
  sn : ∀ k < e.cfg.windowSize, ∀ pdu ∈ e.rx.ahead e.rxNext k,
    pdu.sn = (e.rxNext + k) % e.cfg.snModulus
  empty : ∀ k < e.cfg.windowSize, h ≤ k → e.rx.ahead e.rxNext k = []
  last : ∀ k, h = k + 1 → e.rx.ahead e.rxNext k ≠ []

/-- The window, of which `rx_highest_status` lies `s` ahead and `rx_next_highest` lies `h` ahead. -/
structure WindowInv (e : AmEntity) (s h : ℕ) : Prop where
  slots : e.SlotInv h
  highestStatus : e.rxHighestStatus = (e.rxNext + s) % e.cfg.snModulus
  status_le : s ≤ h
  head : sduDelivered (e.rx.ahead e.rxNext 0) = false
  status : sduDelivered (e.rx.ahead e.rxNext s) = false

/-- While `t_reassembly` runs its trigger is ahead of `rx_next` and not beyond `rx_next_highest`. -/
def TriggerInv (e : AmEntity) (h : ℕ) : Prop :=
  e.tReassemblyStart ≠ 0 →
    ∃ t, 0 < t ∧ t ≤ h ∧ e.rxNextStatusTrigger = (e.rxNext + t) % e.cfg.snModulus

theorem SlotInv.congr (hinv : e.SlotInv h) (hcfg : e'.cfg = e.cfg) (hnext : e'.rxNext = e.rxNext)
    (hhighest : e'.rxNextHighest = e.rxNextHighest) (hrx : e'.rx = e.rx) : e'.SlotInv h := by
  refine ⟨⟨?_, ?_, ?_⟩, ?_, ?_, ?_, ?_, ?_⟩
  all_goals simp only [hcfg, hnext, hhighest, hrx]
  · exact hinv.ring.size_eq
  · exact hinv.ring.snStart_eq
  · exact hinv.ring.rxNext_lt
  · exact hinv.nextHighest
  · exact hinv.le
  · exact hinv.sn
  · exact hinv.empty
  · exact hinv.last

theorem WindowInv.congr (hinv : e.WindowInv s h) (heq : e'.windowSide = e.windowSide) :
    e'.WindowInv s h := by
  simp only [windowSide, Prod.mk.injEq] at heq
  obtain ⟨hcfg, hnext, hstatus, hhighest, hrx⟩ := heq
  refine ⟨hinv.slots.congr hcfg hnext hhighest hrx, ?_, hinv.status_le, ?_, ?_⟩
  all_goals simp only [hcfg, hnext, hstatus, hrx]
  · exact hinv.highestStatus
  · exact hinv.head
  · exact hinv.status

theorem RxInv.modulusRx_add (hring : e.RxInv) {k : ℕ} (hk : k < e.cfg.snModulus) :
    e.modulusRx ((e.rxNext + k) % e.cfg.snModulus) = k :=
  Window.offset_add_mod hring.rxNext_lt hk

/-- An update of a slot of the window. -/
theorem RxInv.ahead_set (hring : e.RxInv) (hx : x < e.cfg.windowSize) (l : List Pdu) (k : ℕ) :
    (e.rx.setPduFromSn ((e.rxNext + x) % e.cfg.snModulus) l).ahead e.rxNext k =
      if k % e.cfg.windowSize = x then l else e.rx.ahead e.rxNext k := by
  have hx' : x % e.rx.size = x := Nat.mod_eq_of_lt (hring.size_eq ▸ hx)
  rw [hring.snModulus_eq, ← hring.size_eq]
  by_cases hk : k % e.rx.size = x
  · obtain ⟨rx, hrx⟩ : ∃ rx, rx = e.rx.setPduFromSn ((e.rxNext + x) % (2 * e.rx.size)) l := ⟨_, rfl⟩
    have hround : rx.ahead e.rxNext (k % rx.size) = rx.ahead e.rxNext k := RxManager.ahead_mod _ _
    have hsize : rx.size = e.rx.size := by rw [hrx, RxManager.setPduFromSn]
    rw [if_pos hk, ← hrx, ← hround, hsize, hk, hrx]
    exact RxManager.ahead_set_self hring.start_le hring.rxNext_lt' x l
  · rw [if_neg hk]
    exact RxManager.ahead_set_of_ne hring.start_le hring.rxNext_lt' (by rwa [hx']) l

/-- An accepted segment in its slot. -/
theorem sduDelivered_insertPdu {pdu : Pdu} {l : List Pdu} (hdata : pdu.data.isSome)
    (hl : sduDelivered l = false) : sduDelivered (insertPdu pdu l) = false := by
  have hnew : sduDelivered (pdu :: l) = false := by
    simpa [sduDelivered] using hdata
  cases l with
  | nil => exact hnew
  | cons cur l =>
    rw [insertPdu]
    split_ifs
    · exact hnew
    · exact hl

theorem insertPdu_ne_nil (pdu : Pdu) (l : List Pdu) : insertPdu pdu l ≠ [] := by
  cases l with
  | nil => exact List.cons_ne_nil _ _
  | cons cur l =>
    rw [insertPdu]
    split_ifs <;> exact List.cons_ne_nil _ _

/-- A segment is received in the window. -/
theorem WindowInv.addPdu (hinv : e.WindowInv s h) {pdu : Pdu} (hx : x < e.cfg.windowSize)
    (hsn : pdu.sn = (e.rxNext + x) % e.cfg.snModulus) (hdata : pdu.data.isSome) :
    ((e.addPdu pdu).updateNextHighest pdu.sn).WindowInv s (max h (x + 1)) := by
  have hring := hinv.slots.ring
  have hlt := e.cfg.windowSize_lt
  have hle := hinv.slots.le
  have hring' : (e.addPdu pdu).RxInv := hring.addPdu pdu
  obtain ⟨l, hl⟩ : ∃ l, l = e.rx.getPduFromSn pdu.sn := ⟨_, rfl⟩
  have hold : l = e.rx.ahead e.rxNext x := by
    rw [hl, hsn, hring.getPduFromSn_ahead]
  have hahead : ∀ k, (e.addPdu pdu).rx.ahead e.rxNext k =
      if k % e.cfg.windowSize = x then insertPdu pdu l else e.rx.ahead e.rxNext k := by
    intro k
    rw [← hring.ahead_set hx, ← hsn, hl]
    rfl
  have hslot : ∀ k, sduDelivered (e.rx.ahead e.rxNext k) = false →
      sduDelivered ((e.addPdu pdu).rx.ahead e.rxNext k) = false := by
    intro k hk
    rw [hahead]
    split_ifs with hkx
    · refine sduDelivered_insertPdu hdata ?_
      rwa [hold, ← hkx, ← hring.size_eq, RxManager.ahead_mod]
    · exact hk
  have hhighest : ((e.addPdu pdu).updateNextHighest pdu.sn).rxNextHighest =
      (e.rxNext + max h (x + 1)) % e.cfg.snModulus := by
    have hsnOffset : (e.addPdu pdu).modulusRx pdu.sn = x := by
      rw [hsn]
      exact hring'.modulusRx_add (by change x < e.cfg.snModulus; omega)
    have hhighestOffset : (e.addPdu pdu).modulusRx (e.addPdu pdu).rxNextHighest = h := by
      change e.modulusRx e.rxNextHighest = h
      rw [hinv.slots.nextHighest]
      exact hring.modulusRx_add (by omega)
    rw [updateNextHighest, hsnOffset, hhighestOffset]
    split_ifs with hcmp
    · rw [Nat.max_eq_right (by omega), hsn]
      change ((e.rxNext + x) % e.cfg.snModulus + 1) % e.cfg.snModulus = _
      rw [Nat.mod_add_mod, Nat.add_assoc]
    · rw [Nat.max_eq_left (by omega), ← hinv.slots.nextHighest]
      rfl
  have hside : ((e.addPdu pdu).updateNextHighest pdu.sn).windowSide = windowSide { e.addPdu pdu with
      rxNextHighest := (e.rxNext + max h (x + 1)) % e.cfg.snModulus } := by
    have hcore := @rxCore_updateNextHighest (e.addPdu pdu) pdu.sn
    simp only [rxCore, Prod.mk.injEq] at hcore
    obtain ⟨hcfg, hnext, hstatus, hrx, -⟩ := hcore
    rw [windowSide, hcfg, hnext, hstatus, hrx, hhighest]
    rfl
  refine WindowInv.congr ?_ hside
  refine ⟨⟨⟨hring.size_eq, hring.snStart_eq, hring.rxNext_lt⟩, rfl, ?_, fun k hk s' hs' => ?_,
    fun k hk hhk => ?_, fun k hk => ?_⟩, hinv.highestStatus, ?_, hslot 0 hinv.head,
    hslot s hinv.status⟩
  · change max h (x + 1) ≤ e.cfg.windowSize
    omega
  · have hk : k < e.cfg.windowSize := hk
    have hs' : s' ∈ (e.addPdu pdu).rx.ahead e.rxNext k := hs'
    rw [hahead, Nat.mod_eq_of_lt hk] at hs'
    split_ifs at hs' with hkx
    · rcases mem_insertPdu.mp hs' with rfl | hs'
      · rw [hkx]
        exact hsn
      · rw [hold, ← hkx] at hs'
        exact hinv.slots.sn k hk s' hs'
    · exact hinv.slots.sn k hk s' hs'
  · have hk : k < e.cfg.windowSize := hk
    change (e.addPdu pdu).rx.ahead e.rxNext k = []
    rw [hahead, Nat.mod_eq_of_lt hk, if_neg (by omega)]
    exact hinv.slots.empty k hk (by omega)
  · change (e.addPdu pdu).rx.ahead e.rxNext k ≠ []
    rw [hahead, Nat.mod_eq_of_lt (by omega)]
    split_ifs with hkx
    · exact insertPdu_ne_nil pdu l
    · exact hinv.slots.last k (by omega)
  · have hsh := hinv.status_le
    omega

/-! ### Completed SDUs -/

/-- What stays when an SDU is delivered. -/
theorem windowSide_reassembleAndDeliver (sn : ℕ) :
    (e.reassembleAndDeliver sn).windowSide = (e.cfg, e.rxNext, e.rxHighestStatus, e.rxNextHighest,
      e.rx.setPduFromSn sn ((e.rx.getPduFromSn sn).map Pdu.processed)) := by
  rw [AmEntity.reassembleAndDeliver]
  split <;> rfl

theorem reassemblyTimer_reassembleAndDeliver (sn : ℕ) :
    (e.reassembleAndDeliver sn).reassemblyTimer = e.reassemblyTimer := by
  rw [AmEntity.reassembleAndDeliver]
  split <;> rfl

/-- The slots after an SDU of the window has been delivered. -/
theorem SlotInv.reassembleAndDeliver (hinv : e.SlotInv h) (hx : x < h) :
    (e.reassembleAndDeliver ((e.rxNext + x) % e.cfg.snModulus)).SlotInv h ∧
      ∀ k, k % e.cfg.windowSize ≠ x →
        (e.reassembleAndDeliver ((e.rxNext + x) % e.cfg.snModulus)).rx.ahead e.rxNext k =
          e.rx.ahead e.rxNext k := by
  have hring := hinv.ring
  have hle := hinv.le
  have hring' := hring.reassembleAndDeliver ((e.rxNext + x) % e.cfg.snModulus)
  have hside := e.windowSide_reassembleAndDeliver ((e.rxNext + x) % e.cfg.snModulus)
  obtain ⟨e₁, he₁⟩ : ∃ e₁, e₁ = e.reassembleAndDeliver ((e.rxNext + x) % e.cfg.snModulus) :=
    ⟨_, rfl⟩
  obtain ⟨l, hl⟩ : ∃ l, l = e.rx.getPduFromSn ((e.rxNext + x) % e.cfg.snModulus) := ⟨_, rfl⟩
  have hold : l = e.rx.ahead e.rxNext x := by
    rw [hl, hring.getPduFromSn_ahead]
  rw [← he₁] at hring' hside ⊢
  rw [← hl] at hside
  simp only [windowSide, Prod.mk.injEq] at hside
  obtain ⟨hcfg, hnext, -, hhighest, hrx⟩ := hside
  have hahead : ∀ k, e₁.rx.ahead e.rxNext k =
      if k % e.cfg.windowSize = x then l.map Pdu.processed else e.rx.ahead e.rxNext k := by
    intro k
    rw [hrx]
    exact hring.ahead_set (by omega) _ k
  refine ⟨⟨hring', ?_, ?_, ?_, ?_, ?_⟩, fun k hk => (hahead k).trans (if_neg hk)⟩
  all_goals simp only [hcfg, hnext, hhighest]
  · exact hinv.nextHighest
  · exact hle
  · intro k hk pdu hpdu
    rw [hahead, Nat.mod_eq_of_lt hk] at hpdu
    split_ifs at hpdu with hkx
    · obtain ⟨pdu', hpdu', rfl⟩ := List.mem_map.mp hpdu
      rw [hold, ← hkx] at hpdu'
      exact hinv.sn k hk pdu' hpdu'
    · exact hinv.sn k hk pdu hpdu
  · intro k hk hhk
    rw [hahead, Nat.mod_eq_of_lt hk, if_neg (by omega)]
    exact hinv.empty k hk hhk
  · intro k hk
    rw [hahead, Nat.mod_eq_of_lt (by omega)]
    split_ifs with hkx
    · rw [hold, ← hkx, ne_eq, List.map_eq_nil_iff]
      exact hinv.last k hk
    · exact hinv.last k hk

/-- The update of `rx_highest_status` when the SDU `x` ahead of `rx_next` has been delivered. -/
theorem SlotInv.updateHighestStatus (hinv : e.SlotInv h) (hx : x < h) (hsh : s ≤ h)
    (hstatus : e.rxHighestStatus = (e.rxNext + s) % e.cfg.snModulus)
    (hslot : s % e.cfg.windowSize ≠ x → sduDelivered (e.rx.ahead e.rxNext s) = false)
    (hhead : x ≠ 0 → sduDelivered (e.rx.ahead e.rxNext 0) = false)
    (he : e.updateHighestStatus fuel ((e.rxNext + x) % e.cfg.snModulus) = some e') :
    ∃ s', s' ≤ h ∧ e'.windowSide = (e.cfg, e.rxNext, (e.rxNext + s') % e.cfg.snModulus,
        e.rxNextHighest, e.rx) ∧ e'.reassemblyTimer = e.reassemblyTimer ∧
      (sduDelivered (e.rx.ahead e.rxNext s') = false ∨ (x = 0 ∧ s' = e.cfg.windowSize)) := by
  have hring := hinv.ring
  have hle := hinv.le
  have hw := e.cfg.windowSize_lt
  rw [AmEntity.updateHighestStatus] at he
  split_ifs at he with hsn
  · obtain ⟨sn, hskip, rfl⟩ := Option.map_eq_some_iff.mp he
    have hxs : x = s := by
      have hoffset := congrArg e.modulusRx (hsn.trans hstatus)
      rwa [hring.modulusRx_add (by omega), hring.modulusRx_add (by omega)] at hoffset
    rw [hstatus] at hskip
    obtain ⟨b, -, rfl, hb, hall⟩ := hring.skipDelivered_spec hskip
    refine ⟨b, ?_, rfl, rfl, .inl hb⟩
    by_contra hbh
    have hdel := hall h hsh (Nat.not_le.mp hbh)
    rcases Nat.eq_or_lt_of_le hle with hfull | hlt
    · -- the slot behind the window is the one of `rx_next`
      rw [hfull, ← hring.size_eq, ← RxManager.ahead_mod, Nat.mod_self] at hdel
      by_cases hzero : x = 0
      · have hround := hall (b % e.rx.size) (by omega) (by
          have hmod := Nat.mod_lt b hring.size_pos
          rw [hring.size_eq] at hmod ⊢
          omega)
        rw [RxManager.ahead_mod, hb] at hround
        cases hround
      · rw [hhead hzero] at hdel
        cases hdel
    · rw [hinv.empty h hlt le_rfl] at hdel
      cases hdel
  · cases he
    refine ⟨s, hsh, ?_, rfl, ?_⟩
    · rw [windowSide, hstatus]
    · by_cases hsx : s % e.cfg.windowSize = x
      · refine .inr ?_
        have hne : s ≠ x := fun heq => hsn (by rw [hstatus, heq])
        have hsw : s = e.cfg.windowSize := by
          by_contra hnot
          exact hne (by rwa [Nat.mod_eq_of_lt (by omega)] at hsx)
        rw [hsw, Nat.mod_self] at hsx
        exact ⟨hsx.symm, hsw⟩
      · exact .inl (hslot hsx)

/-- The window moves to the first SDU that has not been delivered. -/
theorem SlotInv.updateRxNext (hinv : e.SlotInv h) (hx : x < h) (hsh : s ≤ h)
    (hstatus : e.rxHighestStatus = (e.rxNext + s) % e.cfg.snModulus)
    (hslot : sduDelivered (e.rx.ahead e.rxNext s) = false ∨ (x = 0 ∧ s = e.cfg.windowSize))
    (hhead : x ≠ 0 → sduDelivered (e.rx.ahead e.rxNext 0) = false)
    (he : e.updateRxNext fuel ((e.rxNext + x) % e.cfg.snModulus) = some e') :
    ∃ k s' h', h = k + h' ∧ e'.cfg = e.cfg ∧ e'.rxNext = (e.rxNext + k) % e.cfg.snModulus ∧
      e'.reassemblyTimer = e.reassemblyTimer ∧ e'.WindowInv s' h' := by
  have hring := hinv.ring
  have hle := hinv.le
  have hw := e.cfg.windowSize_lt
  have hring' := hring.updateRxNext he
  have hzero : x = 0 ↔ (e.rxNext + x) % e.cfg.snModulus = e.rxNext := by
    constructor
    · rintro rfl
      rw [Nat.add_zero, Nat.mod_eq_of_lt hring.rxNext_lt]
    · intro heq
      have hoffset := congrArg e.modulusRx heq
      rwa [hring.modulusRx_add (by omega), modulusRx, Window.offset_self] at hoffset
  rw [AmEntity.updateRxNext] at he
  split_ifs at he with hsn
  · obtain ⟨⟨rx', rxNext', count'⟩, hfree, rfl⟩ := Option.map_eq_some_iff.mp he
    rw [hring.snModulus_eq] at hfree
    obtain ⟨k, hk, rfl, hcount, hsize, -, hsnStart, hall, hstop, hcleared, hrest⟩ :=
      freeDelivered_spec' hring.size_pos hring.start_le hring.rxNext_lt' hfree
    obtain rfl : count' = k := by omega
    rw [hring.size_eq] at hk hstop hrest
    -- the slots from the new `rx_next` on
    have hahead : ∀ j, ((rx'.advance count').setStart
        ((e.rxNext + count') % (2 * e.rx.size))).ahead ((e.rxNext + count') % (2 * e.rx.size)) j =
          rx'.ahead e.rxNext (count' + j) := by
      intro j
      have hmove := RxManager.ahead_advance (m := rx') (by
        rw [hsnStart, hsize, hring.snStart_eq]
        exact hring.rxNext_lt') count' j
      rwa [hsnStart, hsize, hring.snStart_eq] at hmove
    have hinside : ∀ j, count' + j < e.cfg.windowSize →
        rx'.ahead e.rxNext (count' + j) = e.rx.ahead e.rxNext (count' + j) :=
      fun j hj => hrest (count' + j) hj (Nat.le_add_right _ _)
    have hround : ∀ j, e.cfg.windowSize ≤ count' + j → count' + j - e.cfg.windowSize < count' →
        rx'.ahead e.rxNext (count' + j) = [] := by
      intro j hj hlt
      have hmod := RxManager.ahead_mod (m := rx') e.rxNext (count' + j)
      have hlt' : count' + j - e.cfg.windowSize < e.cfg.windowSize := by omega
      rw [hsize, hring.size_eq, Nat.mod_eq_sub_mod hj, Nat.mod_eq_of_lt hlt'] at hmod
      rw [← hmod]
      exact hcleared _ hlt
    have hks : count' ≤ s := by
      by_contra hnot
      have hdel := hall s (Nat.not_le.mp hnot)
      rcases hslot with hundel | ⟨-, hsw⟩
      · rw [hundel] at hdel
        cases hdel
      · omega
    have hslot' : ∀ j, count' + j ≤ e.cfg.windowSize →
        (count' + j < e.cfg.windowSize → sduDelivered (e.rx.ahead e.rxNext (count' + j)) = false) →
        sduDelivered (rx'.ahead e.rxNext (count' + j)) = false := by
      intro j hj hundel
      rcases Nat.eq_or_lt_of_le hj with heq | hlt
      · rcases Nat.eq_zero_or_pos count' with hzero' | hpos
        · -- nothing has been cleared
          have hmod := RxManager.ahead_mod (m := rx') e.rxNext (count' + j)
          rw [heq, hsize, hring.size_eq, Nat.mod_self] at hmod
          rw [heq, ← hmod, hrest 0 e.cfg.windowSize_pos (by omega), ← hzero']
          exact hstop (hzero' ▸ e.cfg.windowSize_pos)
        · rw [hround j heq.ge (by omega)]
          rfl
      · rw [hinside j hlt]
        exact hundel hlt
    refine ⟨count', s - count', h - count', by omega, rfl, ?_, rfl,
      ⟨⟨hring', ?_, ?_, ?_, ?_, ?_⟩, ?_, ?_, ?_, ?_⟩⟩
    · rw [hring.snModulus_eq]
    · change e.rxNextHighest = ((e.rxNext + count') % (2 * e.rx.size) + (h - count')) %
        e.cfg.snModulus
      rw [← hring.snModulus_eq, Nat.mod_add_mod, Nat.add_assoc, Nat.add_sub_cancel' (by omega)]
      exact hinv.nextHighest
    · exact (Nat.sub_le _ _).trans hle
    · intro j hj pdu hpdu
      have hpdu : pdu ∈ ((rx'.advance count').setStart
        ((e.rxNext + count') % (2 * e.rx.size))).ahead ((e.rxNext + count') % (2 * e.rx.size)) j :=
          hpdu
      change pdu.sn = ((e.rxNext + count') % (2 * e.rx.size) + j) % e.cfg.snModulus
      rw [hahead] at hpdu
      rw [← hring.snModulus_eq, Nat.mod_add_mod, Nat.add_assoc]
      have hj : j < e.cfg.windowSize := hj
      by_cases hlt : count' + j < e.cfg.windowSize
      · rw [hinside j hlt] at hpdu
        exact hinv.sn _ hlt pdu hpdu
      · rw [hround j (by omega) (by omega)] at hpdu
        cases hpdu
    · intro j hj hhj
      have hj : j < e.cfg.windowSize := hj
      change ((rx'.advance count').setStart
        ((e.rxNext + count') % (2 * e.rx.size))).ahead ((e.rxNext + count') % (2 * e.rx.size)) j =
        []
      rw [hahead]
      by_cases hlt : count' + j < e.cfg.windowSize
      · rw [hinside j hlt]
        exact hinv.empty _ hlt (by omega)
      · exact hround j (by omega) (by omega)
    · intro j hj
      change ((rx'.advance count').setStart
        ((e.rxNext + count') % (2 * e.rx.size))).ahead
        ((e.rxNext + count') % (2 * e.rx.size)) j ≠ []
      rw [hahead, hinside j (by omega)]
      exact hinv.last _ (by omega)
    · change e.rxHighestStatus = ((e.rxNext + count') % (2 * e.rx.size) + (s - count')) %
        e.cfg.snModulus
      rw [← hring.snModulus_eq, Nat.mod_add_mod, Nat.add_assoc, Nat.add_sub_cancel' hks]
      exact hstatus
    · omega
    · change sduDelivered (((rx'.advance count').setStart _).ahead _ 0) = false
      rw [hahead]
      exact hslot' 0 hk fun hlt => hstop hlt
    · change sduDelivered (((rx'.advance count').setStart _).ahead _ (s - count')) = false
      rw [hahead]
      refine hslot' _ (by omega) fun hlt => ?_
      rw [Nat.add_sub_cancel' hks] at hlt ⊢
      rcases hslot with hundel | ⟨-, hsw⟩
      · exact hundel
      · omega
  · cases he
    have hpos : x ≠ 0 := fun heq => hsn (hzero.mp heq)
    refine ⟨0, s, h, (Nat.zero_add h).symm, rfl, ?_, rfl, hinv, hstatus, hsh, hhead hpos, ?_⟩
    · rw [Nat.add_zero, Nat.mod_eq_of_lt hring.rxNext_lt]
    · exact hslot.resolve_right fun hfull => hpos hfull.1

theorem WindowInv.completeSdu (hinv : e.WindowInv s h) (hx : x < h)
    (he : e.completeSdu fuel ((e.rxNext + x) % e.cfg.snModulus) = some e') :
    ∃ k s' h', h = k + h' ∧ e'.cfg = e.cfg ∧ e'.rxNext = (e.rxNext + k) % e.cfg.snModulus ∧
      e'.reassemblyTimer = e.reassemblyTimer ∧ e'.WindowInv s' h' := by
  obtain ⟨e₂, he₂, he⟩ := Option.bind_eq_some_iff.mp he
  have hle := hinv.slots.le
  obtain ⟨hslots, hothers⟩ := hinv.slots.reassembleAndDeliver hx
  have hside := e.windowSide_reassembleAndDeliver ((e.rxNext + x) % e.cfg.snModulus)
  have htimer := e.reassemblyTimer_reassembleAndDeliver ((e.rxNext + x) % e.cfg.snModulus)
  generalize e.reassembleAndDeliver ((e.rxNext + x) % e.cfg.snModulus) = e₁ at *
  simp only [windowSide, Prod.mk.injEq] at hside
  obtain ⟨hcfg, hnext, hstatus, -, -⟩ := hside
  rw [← hnext, ← hcfg] at he₂ he ⊢
  have hhead : x ≠ 0 → sduDelivered (e₁.rx.ahead e₁.rxNext 0) = false := by
    intro hne
    rw [hnext, hothers 0 (by rw [Nat.zero_mod]; exact hne.symm)]
    exact hinv.head
  obtain ⟨s', hsh', hside₂, htimer₂, hslot₂⟩ := hslots.updateHighestStatus hx hinv.status_le
    (by rw [hstatus, hnext, hcfg]; exact hinv.highestStatus)
    (by
      intro hne
      rw [hcfg] at hne
      rw [hnext, hothers s hne]
      exact hinv.status) hhead he₂
  simp only [windowSide, Prod.mk.injEq] at hside₂
  obtain ⟨hcfg₂, hnext₂, hstatus₂, hhighest₂, hrx₂⟩ := hside₂
  have hslots₂ := hslots.congr hcfg₂ hnext₂ hhighest₂ hrx₂
  rw [← htimer, ← htimer₂, ← hcfg₂, ← hnext₂]
  rw [← hnext₂, ← hcfg₂] at he hstatus₂
  rw [← hrx₂, ← hnext₂, ← hcfg₂] at hslot₂
  rw [← hrx₂, ← hnext₂] at hhead
  exact hslots₂.updateRxNext hx hsh' hstatus₂ hslot₂ hhead he

/-! ### The timer -/

/-- The trigger after the window has moved: still in it, or left behind. -/
def TriggerBehind (e : AmEntity) (h : ℕ) : Prop :=
  e.tReassemblyStart ≠ 0 → e.rxNextStatusTrigger < e.cfg.snModulus ∧
    (e.modulusRx e.rxNextStatusTrigger ≤ h ∨ e.cfg.windowSize < e.modulusRx e.rxNextStatusTrigger)

/-- The window moves `k` forward. -/
theorem TriggerInv.move {k h' : ℕ} (htrigger : e.TriggerInv h) (hring : e'.RxInv)
    (hh : h = k + h') (hle : h ≤ e.cfg.windowSize) (hcfg : e'.cfg = e.cfg)
    (hnext : e'.rxNext = (e.rxNext + k) % e.cfg.snModulus)
    (htimer : e'.reassemblyTimer = e.reassemblyTimer) : e'.TriggerBehind h' := by
  obtain ⟨hstart, htrig⟩ := Prod.mk.inj htimer
  intro hrunning
  rw [hstart] at hrunning
  obtain ⟨t, hpos, hth, htsn⟩ := htrigger hrunning
  have hw := e.cfg.windowSize_lt
  have htwo := e.cfg.snModulus_eq
  rw [htrig, htsn, hcfg]
  refine ⟨Nat.mod_lt _ e.cfg.snModulus_pos, ?_⟩
  rcases Nat.lt_or_ge t k with hbehind | hahead
  · have hsn : (e.rxNext + t) % e.cfg.snModulus =
        (e'.rxNext + (e.cfg.snModulus + t - k)) % e.cfg.snModulus := by
      rw [hnext, Nat.mod_add_mod]
      have hsum : e.rxNext + k +
          (e.cfg.snModulus + t - k) = e.rxNext + t + e.cfg.snModulus := by omega
      rw [hsum, Nat.add_mod_right]
    have hoffset := hring.modulusRx_add (k := e.cfg.snModulus + t - k) (by rw [hcfg]; omega)
    rw [hcfg, ← hsn] at hoffset
    rw [hoffset]
    omega
  · have hsn : (e.rxNext + t) % e.cfg.snModulus = (e'.rxNext + (t - k)) % e.cfg.snModulus := by
      rw [hnext, Nat.mod_add_mod, Nat.add_assoc, Nat.add_sub_cancel' hahead]
    have hoffset := hring.modulusRx_add (k := t - k) (by rw [hcfg]; omega)
    rw [hcfg, ← hsn] at hoffset
    rw [hoffset]
    omega

@[simp] theorem windowSide_stopTReassembly : e.stopTReassembly.windowSide = e.windowSide := by
  rw [stopTReassembly]
  split_ifs <;> rfl

@[simp] theorem windowSide_startTReassembly (sn : ℕ) :
    (e.startTReassembly sn).windowSide = e.windowSide := by
  rw [startTReassembly]
  split_ifs <;> rfl

theorem TriggerBehind.stop (htrigger : e.TriggerBehind h) (hring : e.RxInv) :
    e.stopTReassembly.TriggerInv h := by
  intro hrunning
  rw [stopTReassembly] at hrunning ⊢
  split_ifs at hrunning ⊢ with hstop
  · exact absurd rfl hrunning
  · obtain ⟨hlt, hwhere⟩ := htrigger hrunning
    have hsn : (e.rxNext + e.modulusRx e.rxNextStatusTrigger) % e.cfg.snModulus =
        e.rxNextStatusTrigger := Window.add_offset_mod hlt hring.rxNext_lt
    have hnot := not_and.mp hstop hrunning
    rw [not_or, not_or, not_and, not_and_or] at hnot
    obtain ⟨hne, -, hout⟩ := hnot
    have hw := e.cfg.windowSize_lt
    refine ⟨e.modulusRx e.rxNextStatusTrigger, ?_, ?_, hsn.symm⟩
    · refine Nat.pos_of_ne_zero fun hzero => hne ?_
      rw [hzero, Nat.add_zero, Nat.mod_eq_of_lt hring.rxNext_lt] at hsn
      exact hsn.symm
    · refine hwhere.resolve_right fun hbehind => ?_
      rcases hout with hin | hend
      · simp only [snInRecvWindow, decide_eq_false_iff_not, not_not] at hin
        omega
      · have hend := not_not.mp hend
        rw [hend, hring.modulusRx_add hw] at hbehind
        exact absurd hbehind (Nat.lt_irrefl _)

/-- When the timer is started its trigger is `rx_next_highest`, which is ahead of `rx_next`. -/
theorem SlotInv.startTReassembly (hinv : e.SlotInv h) (hstopped : e.tReassemblyStart = 0) {a : ℕ}
    (ha : a < e.cfg.windowSize ∨ a ≤ h) :
    (e.startTReassembly ((e.rxNext + a) % e.cfg.snModulus)).TriggerInv h := by
  intro hrunning
  rw [AmEntity.startTReassembly] at hrunning ⊢
  have hle := hinv.le
  have hw := e.cfg.windowSize_lt
  have hoffset := hinv.ring.modulusRx_add (k := h) (by omega)
  rw [← hinv.nextHighest] at hoffset
  split_ifs at hrunning ⊢ with hstart
  · refine ⟨h, ?_, le_rfl, hinv.nextHighest⟩
    rw [hoffset] at hstart
    rcases hstart with hgt | ⟨heq, -⟩
    · exact Nat.zero_lt_of_lt hgt
    · refine Nat.pos_of_ne_zero fun hzero => ?_
      have hsucc : e.nextSn ((e.rxNext + a) % e.cfg.snModulus) =
          (e.rxNext + (a + 1)) % e.cfg.snModulus := by
        rw [nextSn, Nat.mod_add_mod]
        rfl
      have hnext := congrArg e.modulusRx heq
      have htwo := e.cfg.snModulus_eq
      have hone := e.cfg.windowSize_pos
      rw [hoffset, hsucc, hinv.ring.modulusRx_add (by omega)] at hnext
      omega
  · exact absurd hstopped hrunning

/-! ### Operations -/

/-- The invariant of the receiving side. -/
def ReceiverInv (e : AmEntity) : Prop := ∃ s h, e.WindowInv s h ∧ e.TriggerInv h

theorem ReceiverInv.congr (hinv : e.ReceiverInv) (heq : e'.receiveSide = e.receiveSide) :
    e'.ReceiverInv := by
  obtain ⟨s, h, hwindow, htrigger⟩ := hinv
  obtain ⟨hside, htimer⟩ := Prod.mk.inj heq
  obtain ⟨hstart, htrig⟩ := Prod.mk.inj htimer
  simp only [windowSide, Prod.mk.injEq] at hside
  refine ⟨s, h, hwindow.congr (congrArg Prod.fst heq), fun hrunning => ?_⟩
  rw [hstart] at hrunning
  rw [htrig, hside.1, hside.2.1]
  exact htrigger hrunning

/-- The timer is stopped and started after a reception. -/
theorem WindowInv.updateTReassembly (hwindow : e.WindowInv s h) (htrigger : e.TriggerBehind h) :
    e.updateTReassembly.ReceiverInv := by
  have hstop := hwindow.congr windowSide_stopTReassembly
  have htriggered := htrigger.stop hwindow.slots.ring
  rw [AmEntity.updateTReassembly]
  by_cases hstopped : e.stopTReassembly.tReassemblyStart = 0
  · have hself : (e.stopTReassembly.rxNext + 0) % e.stopTReassembly.cfg.snModulus =
        e.stopTReassembly.rxNext := by
      rw [Nat.add_zero, Nat.mod_eq_of_lt hstop.slots.ring.rxNext_lt]
    have hstart := hstop.slots.startTReassembly hstopped (a := 0) (.inr (Nat.zero_le h))
    rw [hself] at hstart
    simp only [if_pos hstopped]
    exact ⟨s, h, hstop.congr (windowSide_startTReassembly _), hstart⟩
  · simp only [if_neg hstopped]
    exact ⟨s, h, hstop, htriggered⟩

/-- An accepted segment is received. -/
theorem ReceiverInv.receptionActions (hinv : e.ReceiverInv) {pdu : Pdu} (hx : x < e.cfg.windowSize)
    (hsn : pdu.sn = (e.rxNext + x) % e.cfg.snModulus) (hdata : pdu.data.isSome)
    (he : (e.addPdu pdu).receptionActions fuel pdu.sn = some e') : e'.ReceiverInv := by
  obtain ⟨s, h, hwindow, htrigger⟩ := hinv
  have hadd := hwindow.addPdu hx hsn hdata
  obtain ⟨e₂, he₂, rfl⟩ := Option.map_eq_some_iff.mp he
  have htimer : ((e.addPdu pdu).updateNextHighest pdu.sn).reassemblyTimer = e.reassemblyTimer := by
    rw [updateNextHighest]
    split_ifs <;> rfl
  have hcore := @rxCore_updateNextHighest (e.addPdu pdu) pdu.sn
  simp only [rxCore, Prod.mk.injEq] at hcore
  obtain ⟨hcfg, hnext, -, -, -⟩ := hcore
  have hcfg : ((e.addPdu pdu).updateNextHighest pdu.sn).cfg = e.cfg := hcfg
  have hnext : ((e.addPdu pdu).updateNextHighest pdu.sn).rxNext = e.rxNext := hnext
  generalize (e.addPdu pdu).updateNextHighest pdu.sn = e₁ at *
  have htrigger₁ : e₁.TriggerInv (max h (x + 1)) := by
    obtain ⟨hstart, htrig⟩ := Prod.mk.inj htimer
    intro hrunning
    rw [hstart] at hrunning
    obtain ⟨t, hpos, hth, htsn⟩ := htrigger hrunning
    exact ⟨t, hpos, hth.trans (Nat.le_max_left _ _), by rw [htrig, hcfg, hnext]; exact htsn⟩
  rw [hsn, ← hcfg, ← hnext] at he₂
  split_ifs at he₂
  · obtain ⟨k, s', h', hh, hcfg₂, hnext₂, htimer₂, hwindow₂⟩ := hadd.completeSdu (by omega) he₂
    exact hwindow₂.updateTReassembly
      (htrigger₁.move hwindow₂.slots.ring hh hadd.slots.le hcfg₂ hnext₂ htimer₂)
  · cases he₂
    refine hadd.updateTReassembly ?_
    refine htrigger₁.move (k := 0) hadd.slots.ring (Nat.zero_add _).symm hadd.slots.le rfl ?_ rfl
    rw [Nat.add_zero, Nat.mod_eq_of_lt hadd.slots.ring.rxNext_lt]

/-- The sequence number of a PDU has as many bits as the configuration says. -/
theorem sn_of_parseDataPdu {cfg : AmConfig} {d : Decoder} {p : Bool} {pdu : Pdu}
    (h : parseDataPdu cfg d = (p, some pdu)) : pdu.sn < cfg.snModulus := by
  rw [parseDataPdu] at h
  split at h
  · cases h
  · obtain ⟨-, h⟩ := Prod.mk.inj h
    simp only [Option.bind_eq_bind, Option.bind_eq_some_iff] at h
    obtain ⟨si, -, r, -, ⟨sn, d'⟩, hsn, h⟩ := h
    have hlt := Decoder.getBits_lt hsn
    rw [AmConfig.snModulus, Nat.one_shiftLeft]
    split at h <;>
    · obtain ⟨so, -, h⟩ := Option.bind_eq_some_iff.mp h
      split_ifs at h
      cases h
      exact hlt

theorem ReceiverInv.recvDataPdu (hinv : e.ReceiverInv) {d : Decoder}
    (he : e.recvDataPdu fuel d = some e') : e'.ReceiverInv := by
  have hpoll : ∀ (e : AmEntity) p, (e.poll p).receiveSide = e.receiveSide := by
    intro e p
    rw [poll]
    split_ifs <;> rfl
  rw [AmEntity.recvDataPdu] at he
  split at he
  · cases he
    exact hinv.congr (hpoll _ _)
  · next p pdu hparse =>
    split_ifs at he with hacc
    · obtain ⟨e₁, he₁, rfl⟩ := Option.map_eq_some_iff.mp he
      have hlt := sn_of_parseDataPdu hparse
      have hwindow : e.snInRecvWindow pdu.sn = true := by
        rw [accepts, Bool.and_eq_true, Bool.and_eq_true] at hacc
        exact hacc.1.2
      obtain ⟨s, h, hw, -⟩ := id hinv
      have hsn := Window.add_offset_mod hlt hw.slots.ring.rxNext_lt
      exact (hinv.receptionActions (of_decide_eq_true hwindow) hsn.symm
        (data_of_parseDataPdu hparse).2 he₁).congr (hpoll _ _)
    · cases he
      exact hinv.congr (hpoll _ _)

/-- When `t_reassembly` expires `rx_highest_status` moves past its trigger. -/
theorem ReceiverInv.checkTReassembly (hinv : e.ReceiverInv)
    (he : e.checkTReassembly fuel = some e') : e'.ReceiverInv := by
  rw [AmEntity.checkTReassembly] at he
  split_ifs at he with hwaits
  · cases he
    exact hinv
  · obtain ⟨sn, hskip, rfl⟩ := Option.map_eq_some_iff.mp he
    obtain ⟨s, h, hwindow, htrigger⟩ := hinv
    obtain ⟨t, hpos, hth, htsn⟩ := htrigger (not_or.mp hwaits).1
    have hring := hwindow.slots.ring
    have hle := hwindow.slots.le
    rw [htsn] at hskip
    obtain ⟨b, -, rfl, hb, hall⟩ := hring.skipDelivered_spec hskip
    have hbh : b ≤ h := by
      by_contra hnot
      have hdel := hall h hth (Nat.not_le.mp hnot)
      rcases Nat.eq_or_lt_of_le hle with hfull | hlt
      · rw [hfull, ← hring.size_eq, ← RxManager.ahead_mod, Nat.mod_self, hwindow.head] at hdel
        cases hdel
      · rw [hwindow.slots.empty h hlt le_rfl] at hdel
        cases hdel
    have hwindow' : WindowInv { e with
        tReassemblyStart := 0
        rxHighestStatus := (e.rxNext + b) % e.cfg.snModulus
        statusTriggered := true } b h :=
      ⟨hwindow.slots.congr rfl rfl rfl rfl, rfl, hbh, hwindow.head, hb⟩
    exact ⟨b, h, hwindow'.congr (windowSide_startTReassembly _),
      hwindow'.slots.startTReassembly rfl (.inr hbh)⟩

theorem ReceiverInv.op {op : AmOp} (hinv : e.ReceiverInv) (he : e.op fuel op = some e') :
    e'.ReceiverInv := by
  cases op with
  | recvSdu buffer sduId => exact hinv.congr (receiveSide_recvSdu he)
  | generatePdu size =>
    obtain ⟨⟨pdu, e₁⟩, hpdu, rfl⟩ := Option.map_eq_some_iff.mp he
    exact hinv.congr (receiveSide_generatePdu hpdu)
  | recvPdu buffer =>
    rw [AmEntity.op, recvPdu] at he
    split at he
    · cases he
      exact hinv
    · split_ifs at he
      · cases he
        rw [processControlPdu]
        split
        · exact hinv
        · split_ifs
          · exact hinv.congr (receiveSide_applyControlPdu _)
          · exact hinv
      · exact hinv.recvDataPdu he
  | setTime now =>
    obtain ⟨e₁, hpoll, he⟩ := Option.bind_eq_some_iff.mp he
    have hnow : ReceiverInv { e with tCurrent := now } := hinv.congr rfl
    exact (hnow.congr (receiveSide_checkTPollRetransmit hpoll)).checkTReassembly he
  | discardSdu sduId =>
    cases he
    exact hinv.congr (receiveSide_discardSdu sduId)

theorem receiverInv_new (cfg : AmConfig) : (new cfg).ReceiverInv := by
  refine ⟨0, 0, ⟨⟨⟨rfl, rfl, cfg.snModulus_pos⟩, ?_, Nat.zero_le _, fun k _ pdu hpdu => ?_,
    fun k _ _ => rfl, fun k hk => ?_⟩, ?_, le_rfl, rfl, rfl⟩, fun hrunning => absurd rfl hrunning⟩
  · exact (Nat.zero_mod _).symm
  · cases hpdu
  · cases hk
  · exact (Nat.zero_mod _).symm

end AmEntity

/-- The variables of the receiving side are in order in every state of every run. -/
theorem AmRun.receiverInv {cfg : AmConfig} {ops : List AmOp} {e : AmEntity} (h : AmRun cfg ops e) :
    e.ReceiverInv := by
  refine Run.Reach.invariant (I := AmEntity.ReceiverInv) h ?_ ?_
  · rintro _ rfl
    exact AmEntity.receiverInv_new cfg
  · rintro op e e' hinv ⟨fuel, he⟩
    exact hinv.op he

end LlmHric.Rlc
