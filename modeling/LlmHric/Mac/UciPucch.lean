import LlmHric.Mac.DlHarq

/-! An indication of these formats carries its HARQ bits packed in bytes, in the order in which the
processes were scheduled for the slot. `handle_nr_uci_pucch_2_3_4` shifts the byte of a bit by the
number of the bit, not by its place in the byte, so all bits behind the first byte are read as 0. -/

namespace LlmHric.Mac

open Run

/-! ### Indications -/

/-- `nfapi_nr_harq_pdu_2_3_4_t`; the payload has a place for every bit. -/
structure UciHarq where
  harqCrc : UInt8
  harqBitLen : ℕ
  harqPayload : List UInt8
  bits_le : harqBitLen ≤ 8 * harqPayload.length

namespace UciHarq

/-- The bit `harq_bit` as the program reads it. A shift by 32 or more is not defined, but its value
would not be used: there are not more than 32 processes. -/
def acknack (uci : UciHarq) (harqBit : ℕ) : Bool :=
  ((uci.harqPayload.getD (harqBit >>> 3) 0).toNat >>> harqBit) &&& 1 == 1

/-- The bit as it was sent: bit `i % 8` of byte `i / 8`. -/
def payloadBit (uci : UciHarq) (i : ℕ) : Bool :=
  (uci.harqPayload.getD (i / 8) 0).toNat.testBit (i % 8)

/-- The bits of the loop, with the actions of the processes they are for. -/
def harqBits (uci : UciHarq) (actions : ℕ → Option (Option NrUeServingCellInfo × Bool)) :
    List HarqBit :=
  (List.range uci.harqBitLen).map fun i => ⟨uci.harqCrc != 1 && uci.acknack i, actions i⟩

theorem acknack_of_lt {uci : UciHarq} {i : ℕ} (h : i < 8) : uci.acknack i = uci.payloadBit i := by
  have hbyte : i >>> 3 = i / 8 := Nat.shiftRight_eq_div_pow i 3
  rw [acknack, payloadBit, hbyte, Nat.mod_eq_of_lt h, Nat.testBit, Nat.and_comm]
  rcases Nat.mod_two_eq_zero_or_one ((uci.harqPayload.getD (i / 8) 0).toNat >>> i) with hbit | hbit
  · rw [Nat.one_and_eq_mod_two, hbit]
    rfl
  · rw [Nat.one_and_eq_mod_two, hbit]
    rfl

/-- Behind the first byte nothing is left after the shift. -/
theorem acknack_of_ge {uci : UciHarq} {i : ℕ} (h : 8 ≤ i) : uci.acknack i = false := by
  have hlt := (uci.harqPayload.getD (i >>> 3) 0).toNat_lt
  have hpow : 2 ^ 8 ≤ 2 ^ i := Nat.pow_le_pow_right (by decide) h
  have hzero : (uci.harqPayload.getD (i >>> 3) 0).toNat >>> i = 0 := by
    rw [Nat.shiftRight_eq_div_pow]
    exact Nat.div_eq_of_lt (by omega)
  rw [acknack, hzero]
  rfl

end UciHarq

/-- The loop over the HARQ bits, with the calls of `handle_dl_harq` for the processes of the slot.
-/
def handleHarqBitsTraced (harqRoundMax : UInt8) (frame slot : UInt32) :
    List HarqBit → NrUeSchedCtrl → Option (List (ℕ × Bool) × NrUeSchedCtrl)
  | [], s => some ([], s)
  | bit :: bits, s => do
    let (s, found) ← findHarq harqRoundMax frame slot s
    match found with
    | none => some ([], s)
    | some harq =>
      if !(s.harqProcesses harq).isWaiting then none
      else do
        let pid ← s.feedbackDlHarq.head
        let feedback ← s.feedbackDlHarq.removeFront
        let s ← handleDlHarq harqRoundMax bit.action pid bit.success
          { s with feedbackDlHarq := feedback }
        let (calls, s) ← handleHarqBitsTraced harqRoundMax frame slot bits s
        some ((pid, bit.success) :: calls, s)

/-- `handle_nr_uci_pucch_2_3_4`, for a UE that is known; the bitmap of the indication says whether
it has HARQ bits. -/
def handleNrUciPucch234 (harqRoundMax : UInt8) (frame slot : UInt32) (harq : Option UciHarq)
    (actions : ℕ → Option (Option NrUeServingCellInfo × Bool)) (s : NrUeSchedCtrl) :
    Option (List (ℕ × Bool) × NrUeSchedCtrl) :=
  match harq with
  | none => some ([], s)
  | some uci => handleHarqBitsTraced harqRoundMax frame slot (uci.harqBits actions) s

/-! ### The processes that are handled -/

/-- The processes that `find_harq` finds one after the other: it gives up those in the past, and
stops at the first one in the future. -/
def awaited (past future : ℕ → Bool) : List ℕ → List ℕ
  | [] => []
  | pid :: f =>
    if past pid then awaited past future f
    else if future pid then [] else pid :: awaited past future f

/-- What is waited for, by the state of the processes. -/
def NrUeSchedCtrl.awaitedIn (s : NrUeSchedCtrl) (frame slot : UInt32) (f : List ℕ) : List ℕ :=
  awaited (fun pid => (s.harqProcesses pid).past frame slot)
    (fun pid => (s.harqProcesses pid).future frame slot) f

theorem awaitedIn_congr {s t : NrUeSchedCtrl} {frame slot : UInt32} {f : List ℕ}
    (h : ∀ pid ∈ f, t.harqProcesses pid = s.harqProcesses pid) :
    t.awaitedIn frame slot f = s.awaitedIn frame slot f := by
  induction f with
  | nil => rw [NrUeSchedCtrl.awaitedIn, awaited, NrUeSchedCtrl.awaitedIn, awaited]
  | cons pid f ih =>
    have hrest := ih fun x hx => h x (List.mem_cons_of_mem _ hx)
    rw [NrUeSchedCtrl.awaitedIn, NrUeSchedCtrl.awaitedIn] at hrest ⊢
    rw [awaited, awaited, hrest, h pid List.mem_cons_self]

namespace HarqInv

variable {harqRoundMax : UInt8} {a f r : List ℕ} {s t : NrUeSchedCtrl} {pid : ℕ}
  {frame slot : UInt32}

theorem harqProcesses_handleDlHarq {action : Option (Option NrUeServingCellInfo × Bool)} {x : ℕ}
    {success : Bool} (h : HarqInv harqRoundMax [pid] s a f r)
    (ht : handleDlHarq harqRoundMax action pid success s = some t) (hx : x ≠ pid) :
    t.harqProcesses x = s.harqProcesses x := by
  have hset := h.setHarq { s.harqProcesses pid with feedbackSlot := 65535, isWaiting := false }
  simp only [handleDlHarq] at ht
  split_ifs at ht
  · obtain ⟨u, hu, hfinish⟩ := Option.bind_eq_some_iff.mp ht
    obtain rfl := Option.some.inj hfinish
    have haction : u.harqProcesses x = s.harqProcesses x := by
      cases action with
      | none =>
        obtain rfl := Option.some.inj hu
        exact harqProcesses_setHarq_of_ne hx _
      | some action =>
        rw [(hset.createDlHarqList_inv hu).2]
        exact harqProcesses_setHarq_of_ne hx _
    exact (harqProcesses_setHarq_of_ne hx _).trans haction
  · obtain rfl := Option.some.inj ht
    exact (harqProcesses_setHarq_of_ne hx _).trans (harqProcesses_setHarq_of_ne hx _)
  · obtain rfl := Option.some.inj ht
    exact (harqProcesses_setHarq_of_ne hx _).trans (harqProcesses_setHarq_of_ne hx _)

/-- The first process leaves the list when it is handled; the others are waited for as before. -/
theorem handleFront {action : Option (Option NrUeServingCellInfo × Bool)} {success : Bool}
    {l : NrList} (h : HarqInv harqRoundMax [] s a (pid :: f) r) (frame slot : UInt32)
    (hl : s.feedbackDlHarq.removeFront = some l)
    (ht : handleDlHarq harqRoundMax action pid success { s with feedbackDlHarq := l } = some t) :
    ∃ a' r', HarqInv harqRoundMax [] t a' f r' ∧
      t.awaitedIn frame slot f = s.awaitedIn frame slot f := by
  obtain ⟨l', hl', hrep, hlen⟩ := h.feedback.removeFront
  obtain rfl := Option.some.inj (hl'.symm.trans hl)
  have hheld := h.takeFeedback hrep hlen
  obtain ⟨a', r', ht'⟩ := hheld.handleDlHarq_inv ht
  refine ⟨a', r', ht', awaitedIn_congr fun x hx => ?_⟩
  refine hheld.harqProcesses_handleDlHarq ht ?_
  rintro rfl
  exact hheld.notMem_of_held.2.1 hx

/-- What the loop of `find_harq` finds, and what it leaves in the list. -/
theorem findHarqFrom_awaited {fuel : ℕ} (h : HarqInv harqRoundMax [] s a (pid :: f) r)
    (frame slot : UInt32) (hfuel : f.length < fuel) :
    ∃ t found a' f' r', findHarqFrom harqRoundMax frame slot fuel pid s = some (t, found) ∧
      HarqInv harqRoundMax [] t a' f' r' ∧
      (found = none → s.awaitedIn frame slot (pid :: f) = []) ∧
      ∀ pid', found = some pid' → ∃ f'', f' = pid' :: f'' ∧
        s.awaitedIn frame slot (pid :: f) = pid' :: t.awaitedIn frame slot f'' := by
  induction f generalizing pid fuel s a r with
  | nil =>
    obtain ⟨fuel, rfl⟩ := Nat.exists_eq_succ_of_ne_zero (Nat.ne_of_gt hfuel)
    by_cases hpast : (s.harqProcesses pid).past frame slot
    · obtain ⟨l, hl, -, -⟩ := h.feedback.removeFront
      obtain ⟨t, ht⟩ := exists_handleDlHarq harqRoundMax { s with feedbackDlHarq := l } pid
      obtain ⟨a', r', ht', -⟩ := h.handleFront frame slot hl ht
      refine ⟨t, none, a', [], r', ?_, ht', fun _ => ?_, by simp⟩
      · simp [findHarqFrom, hpast, hl, ht, ht'.feedback.head]
      · simp [NrUeSchedCtrl.awaitedIn, awaited, hpast]
    · by_cases hfuture : (s.harqProcesses pid).future frame slot
      · exact ⟨s, none, a, [pid], r, by simp [findHarqFrom, hpast, hfuture], h,
          fun _ => by simp [NrUeSchedCtrl.awaitedIn, awaited, hpast, hfuture], by simp⟩
      · refine ⟨s, some pid, a, [pid], r, by simp [findHarqFrom, hpast, hfuture], h, by simp, ?_⟩
        rintro _ ⟨⟩
        exact ⟨[], rfl, by simp [NrUeSchedCtrl.awaitedIn, awaited, hpast, hfuture]⟩
  | cons next f ih =>
    obtain ⟨fuel, rfl⟩ := Nat.exists_eq_succ_of_ne_zero (Nat.ne_of_gt (Nat.zero_lt_of_lt hfuel))
    by_cases hpast : (s.harqProcesses pid).past frame slot
    · obtain ⟨l, hl, -, -⟩ := h.feedback.removeFront
      obtain ⟨u, hu⟩ := exists_handleDlHarq harqRoundMax { s with feedbackDlHarq := l } pid
      obtain ⟨a', r', hu', hsame⟩ := h.handleFront frame slot hl hu
      obtain ⟨t, found, a₂, f₂, r₂, hrun, hinv, hnone, hsome⟩ :=
        ih hu' (Nat.lt_of_succ_lt_succ hfuel)
      have hskip : s.awaitedIn frame slot (pid :: next :: f) =
          u.awaitedIn frame slot (next :: f) := by
        rw [hsame]
        simp [NrUeSchedCtrl.awaitedIn, awaited, hpast]
      rw [hskip]
      refine ⟨t, found, a₂, f₂, r₂, ?_, hinv, hnone, hsome⟩
      simp [findHarqFrom, hpast, hl, hu, hu'.feedback.head, hrun]
    · by_cases hfuture : (s.harqProcesses pid).future frame slot
      · exact ⟨s, none, a, _, r, by simp [findHarqFrom, hpast, hfuture], h,
          fun _ => by simp [NrUeSchedCtrl.awaitedIn, awaited, hpast, hfuture], by simp⟩
      · refine ⟨s, some pid, a, _, r, by simp [findHarqFrom, hpast, hfuture], h, by simp, ?_⟩
        rintro _ ⟨⟩
        refine ⟨next :: f, rfl, ?_⟩
        conv_lhs => rw [NrUeSchedCtrl.awaitedIn, awaited]
        rw [if_neg hpast, if_neg hfuture]
        rfl

/-- The processes of the slot are handled one after the other, each with the next bit. -/
theorem calls_eq {bits : List HarqBit} {calls : List (ℕ × Bool)}
    (h : HarqInv harqRoundMax [] s a f r)
    (ht : handleHarqBitsTraced harqRoundMax frame slot bits s = some (calls, t)) :
    calls = List.zipWith (fun pid bit => (pid, bit.success)) (s.awaitedIn frame slot f) bits := by
  induction bits generalizing s a f r calls with
  | nil =>
    cases ht
    rw [List.zipWith_nil_right]
  | cons bit bits ih =>
    rw [handleHarqBitsTraced] at ht
    simp only [Option.bind_eq_bind] at ht
    cases f with
    | nil =>
      have hfind : findHarq harqRoundMax frame slot s = some (s, none) := by
        simp [findHarq, h.feedback.head]
      rw [hfind, Option.bind_some] at ht
      cases ht
      rfl
    | cons pid f =>
      obtain ⟨u, found, a₁, f₁, r₁, hrun, h₁, hnone, hsome⟩ :=
        h.findHarqFrom_awaited frame slot h.feedback.length_le
      have hfind : findHarq harqRoundMax frame slot s = some (u, found) := by
        simp [findHarq, h.feedback.head, hrun]
      rw [hfind, Option.bind_some] at ht
      cases found with
      | none =>
        cases ht
        rw [hnone rfl, List.zipWith_nil_left]
      | some pid' =>
        obtain ⟨f₂, rfl, hawaited⟩ := hsome pid' rfl
        dsimp only at ht
        split_ifs at ht
        have hhead : u.feedbackDlHarq.head = some pid' := h₁.feedback.head
        simp only [hhead, Option.bind_some, Option.bind_eq_some_iff] at ht
        obtain ⟨l, hl, v, hv, ⟨rest, t'⟩, hrest, ht⟩ := ht
        obtain ⟨a₃, r₃, h₃, hsame⟩ := h₁.handleFront frame slot hl hv
        obtain ⟨rfl, rfl⟩ := Prod.mk.inj (Option.some.inj ht)
        rw [hawaited, ← hsame, List.zipWith_cons_cons, ih h₃ hrest]

end HarqInv

/-! ### The processes of the slot -/

/-- Before the first `n` processes in `slot` there are only such processes and processes in the
past. -/
def InOrder (past slot : ℕ → Bool) (f : List ℕ) (n : ℕ) : Prop :=
  ∀ pre pid post, f = pre ++ pid :: post → slot pid = true → (pre.filter slot).length < n →
    ∀ q ∈ pre, slot q = true ∨ past q = true

section

variable {past future slot : ℕ → Bool} {f : List ℕ} {n q : ℕ}

theorem inOrder_zero : InOrder past slot f 0 :=
  fun _ _ _ _ _ hlt => absurd hlt (Nat.not_lt_zero _)

theorem inOrder_cons_past (hq : slot q = false) (hpast : past q = true) :
    InOrder past slot (q :: f) n ↔ InOrder past slot f n := by
  constructor
  · rintro h pre pid post rfl hpid hlt x hx
    refine h (q :: pre) pid post rfl hpid ?_ x (List.mem_cons_of_mem _ hx)
    rwa [List.filter_cons_of_neg (by simp [hq])]
  · intro h pre pid post heq hpid hlt x hx
    cases pre with
    | nil => cases hx
    | cons q' pre =>
      obtain ⟨rfl, rfl⟩ := List.cons.inj heq
      rw [List.filter_cons_of_neg (by simp [hq])] at hlt
      rcases List.mem_cons.mp hx with rfl | hmem
      · exact .inr hpast
      · exact h pre pid post rfl hpid hlt x hmem

theorem inOrder_cons_slot (hq : slot q = true) :
    InOrder past slot (q :: f) (n + 1) ↔ InOrder past slot f n := by
  constructor
  · rintro h pre pid post rfl hpid hlt x hx
    refine h (q :: pre) pid post rfl hpid ?_ x (List.mem_cons_of_mem _ hx)
    rw [List.filter_cons_of_pos hq, List.length_cons]
    omega
  · intro h pre pid post heq hpid hlt x hx
    cases pre with
    | nil => cases hx
    | cons q' pre =>
      obtain ⟨rfl, rfl⟩ := List.cons.inj heq
      rw [List.filter_cons_of_pos hq, List.length_cons] at hlt
      rcases List.mem_cons.mp hx with rfl | hmem
      · exact .inl hq
      · exact h pre pid post rfl hpid (by omega) x hmem

/-- A process of another slot must not stand before the processes in `slot`. -/
theorem inOrder_cons_other (hq : slot q = false) (hpast : past q = false) :
    InOrder past slot (q :: f) n ↔ n = 0 ∨ f.filter slot = [] := by
  constructor
  · intro h
    by_contra hnot
    obtain ⟨hn, hne⟩ := not_or.mp hnot
    obtain ⟨pid, rest, hfilter⟩ := List.exists_cons_of_ne_nil hne
    obtain ⟨pre, post, rfl, hpre, hpid, -⟩ := List.filter_eq_cons_iff.mp hfilter
    have hzero : (q :: pre).filter slot = [] := by
      rw [List.filter_cons_of_neg (by simp [hq])]
      exact List.filter_eq_nil_iff.mpr hpre
    rcases h (q :: pre) pid post rfl hpid (by rw [hzero]; exact Nat.pos_of_ne_zero hn) q
      List.mem_cons_self with hbad | hbad
    · exact absurd (hq.symm.trans hbad) Bool.false_ne_true
    · exact absurd (hpast.symm.trans hbad) Bool.false_ne_true
  · rintro (rfl | hnone) pre pid post heq hpid hlt x hx
    · exact absurd hlt (Nat.not_lt_zero _)
    · cases pre with
      | nil => cases hx
      | cons q' pre =>
        obtain ⟨rfl, rfl⟩ := List.cons.inj heq
        have hmem : pid ∈ (pre ++ pid :: post).filter slot :=
          List.mem_filter.mpr ⟨List.mem_append_right _ List.mem_cons_self, hpid⟩
        change (pre ++ pid :: post).filter slot = [] at hnone
        rw [hnone] at hmem
        cases hmem

/-- The first `n` processes in `slot` are found in turn exactly if they are in order. -/
theorem awaited_eq_filter_iff
    (hslot : ∀ pid, slot pid = true → past pid = false ∧ future pid = false) (f : List ℕ) (n : ℕ) :
    (∀ i < n, ∀ pid, (f.filter slot)[i]? = some pid → (awaited past future f)[i]? = some pid) ↔
      InOrder past slot f n := by
  induction f generalizing n with
  | nil =>
    refine ⟨fun _ pre pid post hf => absurd hf.symm (by simp), fun _ i _ pid hpid => ?_⟩
    cases hpid
  | cons q f ih =>
    rw [awaited]
    cases hq : slot q with
    | true =>
      obtain ⟨hpast, hfuture⟩ := hslot q hq
      rw [List.filter_cons_of_pos hq, hpast, hfuture, if_neg Bool.false_ne_true,
        if_neg Bool.false_ne_true]
      cases n with
      | zero => exact iff_of_true (fun i hi => absurd hi (Nat.not_lt_zero i)) inOrder_zero
      | succ n =>
        rw [inOrder_cons_slot hq, ← ih n]
        constructor
        · intro h i hi pid hpid
          exact h (i + 1) (Nat.succ_lt_succ hi) pid hpid
        · intro h i hi pid hpid
          cases i with
          | zero => exact hpid
          | succ i => exact h i (Nat.lt_of_succ_lt_succ hi) pid hpid
    | false =>
      rw [List.filter_cons_of_neg (by simp [hq])]
      cases hpast : past q with
      | true => rw [if_pos rfl, ih n, inOrder_cons_past hq hpast]
      | false =>
        rw [if_neg Bool.false_ne_true, inOrder_cons_other hq hpast]
        constructor
        · intro h
          by_contra hnot
          obtain ⟨hn, hne⟩ := not_or.mp hnot
          obtain ⟨pid, rest, hfilter⟩ := List.exists_cons_of_ne_nil hne
          have hfound := h 0 (Nat.pos_of_ne_zero hn) pid (by rw [hfilter]; rfl)
          have hpid : slot pid = true :=
            (List.mem_filter.mp (hfilter ▸ List.mem_cons_self : pid ∈ f.filter slot)).2
          split_ifs at hfound
          · cases hfound
          · obtain rfl : q = pid := Option.some.inj hfound
            exact absurd (hq.symm.trans hpid) Bool.false_ne_true
        · rintro (rfl | hnone) i hi pid hpid
          · exact absurd hi (Nat.not_lt_zero i)
          · rw [hnone] at hpid
            cases hpid

end

/-! ### Bits and processes -/

/-- The feedback of the process is expected in the slot. -/
def NrUeHarq.inSlot (harq : NrUeHarq) (frame slot : UInt32) : Bool :=
  harq.feedbackFrame.toUInt32 == frame && harq.feedbackSlot.toUInt32 == slot

theorem NrUeHarq.now_of_inSlot {harq : NrUeHarq} {frame slot : UInt32}
    (h : harq.inSlot frame slot = true) :
    harq.past frame slot = false ∧ harq.future frame slot = false := by
  rw [inSlot, Bool.and_eq_true, beq_iff_eq, beq_iff_eq] at h
  obtain ⟨rfl, rfl⟩ := h
  have hnear :
      ¬ (harq.feedbackFrame.toUInt32 - harq.feedbackFrame.toUInt32 + 1024) % 1024 > 512 := by
    rw [UInt32.sub_self]
    decide
  have hsame : ¬ harq.feedbackSlot.toUInt32 < harq.feedbackSlot.toUInt32 := UInt32.lt_irrefl _
  rw [past, future, decide_eq_false hnear]
  simp

/-- The processes of the list whose feedback is expected in the slot, in the order in which they
were scheduled. -/
def NrUeSchedCtrl.pendingIn (s : NrUeSchedCtrl) (frame slot : UInt32) (f : List ℕ) : List ℕ :=
  f.filter fun pid => (s.harqProcesses pid).inSlot frame slot

/-- The processes of the slot are handled in their order, each with its bit; a report whose checksum
failed acknowledges nothing. -/
def HarqBitsMatched (s : NrUeSchedCtrl) (frame slot : UInt32) (uci : UciHarq) (f : List ℕ)
    (calls : List (ℕ × Bool)) : Prop :=
  ∀ i < uci.harqBitLen, ∀ pid, (s.pendingIn frame slot f)[i]? = some pid →
    calls[i]? = some (pid, uci.harqCrc != 1 && uci.payloadBit i)

/-- No process of another slot is waited for before one of the slot that has a bit, and no process
of the slot is acknowledged by a bit behind the first byte. -/
structure FirstByteOnly (s : NrUeSchedCtrl) (frame slot : UInt32) (uci : UciHarq) (f : List ℕ) :
    Prop where
  inOrder : InOrder (fun pid => (s.harqProcesses pid).past frame slot)
    (fun pid => (s.harqProcesses pid).inSlot frame slot) f uci.harqBitLen
  unset : ∀ i, 8 ≤ i → i < uci.harqBitLen → i < (s.pendingIn frame slot f).length →
    uci.harqCrc = 1 ∨ uci.payloadBit i = false

/-- The call for the bit `i`. -/
theorem getElem?_calls (uci : UciHarq) (actions : ℕ → Option (Option NrUeServingCellInfo × Bool))
    (pids : List ℕ) {i : ℕ} (hi : i < uci.harqBitLen) :
    (List.zipWith (fun pid bit => (pid, HarqBit.success bit)) pids (uci.harqBits actions))[i]? =
      pids[i]?.map fun pid => (pid, uci.harqCrc != 1 && uci.acknack i) := by
  have hbit : (uci.harqBits actions)[i]? =
      some ⟨uci.harqCrc != 1 && uci.acknack i, actions i⟩ := by
    rw [UciHarq.harqBits, List.getElem?_map, List.getElem?_range hi]
    rfl
  rw [List.getElem?_zipWith, hbit]
  cases pids[i]? <;> rfl

/-- In every state that is reached, the processes of a slot are handled with their bits exactly if
no bit behind the first byte acknowledges one of them, and they are the next ones that are waited
for. -/
theorem harqBitsMatched_iff {harqRoundMax : UInt8} {ops : List HarqOp} {s t : NrUeSchedCtrl}
    {f : List ℕ} {frame slot : UInt32} {uci : UciHarq}
    {actions : ℕ → Option (Option NrUeServingCellInfo × Bool)} {calls : List (ℕ × Bool)}
    (h : Reach (HarqStep harqRoundMax) HarqStart ops s) (hf : s.feedbackDlHarq.Represents f)
    (ht : handleNrUciPucch234 harqRoundMax frame slot (some uci) actions s = some (calls, t)) :
    HarqBitsMatched s frame slot uci f calls ↔ FirstByteOnly s frame slot uci f := by
  obtain ⟨a, f', r, hinv⟩ : ∃ a f r, HarqInv harqRoundMax [] s a f r :=
    h.invariant (fun _ hs => hs.inv) fun op _ _ ⟨_, _, _, hinv⟩ hstep => op.run_inv hinv hstep
  obtain rfl := hinv.feedback.unique hf
  have hcalls : ∀ i < uci.harqBitLen, calls[i]? = (s.awaitedIn frame slot f')[i]?.map
      fun pid => (pid, uci.harqCrc != 1 && uci.acknack i) := by
    intro i hi
    rw [hinv.calls_eq ht]
    exact getElem?_calls uci actions _ hi
  have horder := awaited_eq_filter_iff
    (fun pid => @NrUeHarq.now_of_inSlot (s.harqProcesses pid) frame slot) f' uci.harqBitLen
  constructor
  · intro hmatched
    refine ⟨horder.mp fun i hi pid hpid => ?_, fun i hge hi hpending => ?_⟩
    · have hcall := hmatched i hi pid hpid
      rw [hcalls i hi, Option.map_eq_some_iff] at hcall
      obtain ⟨pid', hfound, hpair⟩ := hcall
      obtain ⟨rfl, -⟩ := Prod.mk.inj hpair
      exact hfound
    · have hcall := hmatched i hi _ (List.getElem?_eq_getElem hpending)
      rw [hcalls i hi, Option.map_eq_some_iff] at hcall
      obtain ⟨pid', -, hpair⟩ := hcall
      obtain ⟨-, hvalue⟩ := Prod.mk.inj hpair
      rw [UciHarq.acknack_of_ge hge, Bool.and_false, eq_comm, Bool.and_eq_false_iff] at hvalue
      refine hvalue.imp_left fun hcrc => ?_
      simpa using hcrc
  · intro hfirst i hi pid hpid
    rw [hcalls i hi]
    have hfound : (s.awaitedIn frame slot f')[i]? = some pid :=
      horder.mpr hfirst.inOrder i hi pid hpid
    rw [hfound, Option.map_some]
    rcases Nat.lt_or_ge i 8 with hlt | hge
    · rw [UciHarq.acknack_of_lt hlt]
    · have hpending : i < (s.pendingIn frame slot f').length :=
        (List.getElem?_eq_some_iff.mp hpid).1
      rw [UciHarq.acknack_of_ge hge, Bool.and_false]
      rcases hfirst.unset i hge hi hpending with hcrc | hzero
      · rw [hcrc]
        rfl
      · rw [hzero, Bool.and_false]

/-! ### Nine processes -/

def thirtyTwoProcesses : NrUeSchedCtrl :=
  (createDlHarqList (some ⟨true, none⟩) false .zero).getD .zero

/-- Nine transmissions with their feedback in the same slot. -/
def nineTransmissions : List HarqOp := List.replicate 9 (.transmit none (some (10, 3)))

theorem nineBits_le : 9 ≤ 8 * [(255 : UInt8), 1].length := by decide

/-- Nine acknowledgements. -/
def nineBits : UciHarq := ⟨0, 9, [255, 1], nineBits_le⟩

/-- Every process of the slot is handled with its bit, in every state that is reached. -/
def HarqBitsAlwaysMatched : Prop :=
  ∀ harqRoundMax ops s t f frame slot uci actions calls,
    Reach (HarqStep harqRoundMax) HarqStart ops s → s.feedbackDlHarq.Represents f →
    handleNrUciPucch234 harqRoundMax frame slot (some uci) actions s = some (calls, t) →
    HarqBitsMatched s frame slot uci f calls

/-- The state before the report, and the calls. -/
theorem nineTransmissions_run :
    ((nineTransmissions.foldlM (fun s op => HarqOp.run 4 op s) thirtyTwoProcesses).bind fun s =>
      (handleNrUciPucch234 4 10 3 (some nineBits) (fun _ => none) s).map fun r =>
        ((s.feedbackDlHarq.head :: (List.range 9).map s.feedbackDlHarq.next,
          s.feedbackDlHarq.tail, s.feedbackDlHarq.len),
          (s.pendingIn 10 3 (List.range 9))[8]?, r.1[8]?)) =
      some (([some 0, some 1, some 2, some 3, some 4, some 5, some 6, some 7, some 8, none], some 8,
        32), some 8, some (8, false)) := by
  decide +kernel

theorem exists_nineTransmissions : ∃ s calls t,
    Reach (HarqStep 4) HarqStart nineTransmissions s ∧
      s.feedbackDlHarq.Represents (List.range 9) ∧
      handleNrUciPucch234 4 10 3 (some nineBits) (fun _ => none) s = some (calls, t) ∧
      (s.pendingIn 10 3 (List.range 9))[8]? = some 8 ∧ calls[8]? = some (8, false) := by
  obtain ⟨s, hs, hcalls⟩ := Option.bind_eq_some_iff.mp nineTransmissions_run
  obtain ⟨⟨calls, t⟩, ht, hstate⟩ := Option.map_eq_some_iff.mp hcalls
  simp only [Prod.mk.injEq] at hstate
  obtain ⟨⟨hnext, htail, hlen⟩, hpending, hcall⟩ := hstate
  have hstart : Reach (HarqStep 4) HarqStart [] thirtyTwoProcesses :=
    .start ⟨some ⟨true, none⟩, false, rfl⟩
  have hreach := hstart.append_foldlM (fun _ _ _ _ hrun => hrun) hs
  refine ⟨s, calls, t, hreach, ⟨?_, htail, List.nodup_range, fun id hid => ?_⟩, ht, hpending, hcall⟩
  · simp only [List.range_succ, List.range_zero, List.map_cons, List.map_nil, List.nil_append,
      List.cons_append, List.cons.injEq, and_true] at hnext
    obtain ⟨hhead, h0, h1, h2, h3, h4, h5, h6, h7, h8⟩ := hnext
    exact ⟨hhead, h0, h1, h2, h3, h4, h5, h6, h7, h8⟩
  · rw [hlen]
    exact (List.mem_range.mp hid).trans (by decide)

/-- The ninth process is acknowledged, and handled as not acknowledged. -/
theorem not_harqBitsAlwaysMatched : ¬ HarqBitsAlwaysMatched := by
  intro hmatched
  obtain ⟨s, calls, t, hreach, hrep, ht, hpending, hcall⟩ := exists_nineTransmissions
  have hbit := hmatched 4 _ s t _ 10 3 nineBits _ calls hreach hrep ht 8 (by decide) 8 hpending
  rw [hcall] at hbit
  exact absurd hbit (by decide)

theorem harqBitsMatched_iff_nine : ∃ s calls t,
    handleNrUciPucch234 4 10 3 (some nineBits) (fun _ => none) s = some (calls, t) ∧
      (HarqBitsMatched s 10 3 nineBits (List.range 9) calls ↔
        FirstByteOnly s 10 3 nineBits (List.range 9)) := by
  obtain ⟨s, calls, t, hreach, hrep, ht, -, -⟩ := exists_nineTransmissions
  exact ⟨s, calls, t, ht, harqBitsMatched_iff hreach hrep ht⟩

end LlmHric.Mac
