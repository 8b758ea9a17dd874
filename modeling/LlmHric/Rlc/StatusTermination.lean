import Mathlib.Algebra.BigOperators.Intervals
import Mathlib.Algebra.Order.BigOperators.Group.Finset
import LlmHric.Rlc.StatusSize
import LlmHric.Rlc.ReceiveWindow

/-! The scan for missing parts goes forward through the slots up to `rx_highest_status`, so the
segments ahead of it are fewer in each round; the report has one more NACK for each missing part, so
the parts are at most as many as the bytes of the buffer. -/

namespace LlmHric.Rlc

theorem AmConfig.one_lt_windowSize (cfg : AmConfig) : 1 < cfg.windowSize := by
  rw [windowSize, snModulus]
  cases cfg.snFieldLength <;> simp [SnFieldLength.bits]

namespace AmEntity

variable {e : AmEntity} {s h a b fuel n size : ℕ} {cur : Pdu} {rest l : List Pdu}

/-- The segments from `cur` on are the end of slot `b` of the window, not beyond
`rx_highest_status`, which lies `s` ahead. -/
structure Position (e : AmEntity) (s b : ℕ) (cur : Pdu) (rest : List Pdu) : Prop where
  lt : b < e.cfg.windowSize
  le : b ≤ s
  suffix : cur :: rest <:+ e.rx.ahead e.rxNext b

/-- The segments of the window behind `rest` of slot `b`, with those in it. -/
def behind (e : AmEntity) (b : ℕ) (rest : List Pdu) : ℕ :=
  rest.length + ∑ k ∈ Finset.Ico (b + 1) e.cfg.windowSize, (e.rx.ahead e.rxNext k).length

/-- The segments of the window. -/
def stored (e : AmEntity) : ℕ :=
  ∑ k ∈ Finset.Ico 0 e.cfg.windowSize, (e.rx.ahead e.rxNext k).length

/-- The segments to go on with, if there are any. -/
def Reaches (e : AmEntity) (s : ℕ) (l : List Pdu) : Prop :=
  l = [] ∨ ∃ cur rest b, l = cur :: rest ∧ e.Position s b cur rest

theorem Position.behind_lt (hpos : e.Position s b cur rest) : e.behind b rest < e.stored := by
  have hlength := hpos.suffix.length_le
  rw [List.length_cons] at hlength
  have hslots : ∑ k ∈ Finset.Ico b e.cfg.windowSize, (e.rx.ahead e.rxNext k).length ≤ e.stored :=
    Finset.sum_le_sum_of_subset (Finset.Ico_subset_Ico_left (Nat.zero_le b))
  rw [Finset.sum_eq_sum_Ico_succ_bot hpos.lt] at hslots
  rw [behind]
  omega

/-- A later slot has fewer segments behind it. -/
theorem behind_lt_of_lt {b' : ℕ} (hbb : b < b') (hb' : b' < e.cfg.windowSize)
    {cur' : Pdu} {rest' : List Pdu} (hsuffix : cur' :: rest' <:+ e.rx.ahead e.rxNext b') :
    e.behind b' rest' < e.behind b rest := by
  have hlength := hsuffix.length_le
  rw [List.length_cons] at hlength
  have hslots : ∑ k ∈ Finset.Ico b' e.cfg.windowSize, (e.rx.ahead e.rxNext k).length ≤
      ∑ k ∈ Finset.Ico (b + 1) e.cfg.windowSize, (e.rx.ahead e.rxNext k).length :=
    Finset.sum_le_sum_of_subset (Finset.Ico_subset_Ico_left hbb)
  rw [Finset.sum_eq_sum_Ico_succ_bot hb'] at hslots
  rw [behind, behind]
  omega

namespace WindowInv

theorem sn_eq (hinv : e.WindowInv s h) (hpos : e.Position s b cur rest) :
    cur.sn = (e.rxNext + b) % e.cfg.snModulus :=
  hinv.slots.sn b hpos.lt cur (hpos.suffix.subset List.mem_cons_self)

theorem modulusRx_sn (hinv : e.WindowInv s h) (hpos : e.Position s b cur rest) :
    e.modulusRx cur.sn = b := by
  rw [hinv.sn_eq hpos]
  exact hinv.slots.ring.modulusRx_add (hpos.lt.trans e.cfg.windowSize_lt)

theorem modulusRx_nextSn (hinv : e.WindowInv s h) (hpos : e.Position s b cur rest) :
    e.modulusRx (e.nextSn cur.sn) = b + 1 := by
  have hlt := hpos.lt
  have hw := e.cfg.windowSize_lt
  rw [hinv.sn_eq hpos, nextSn, Nat.mod_add_mod, Nat.add_assoc]
  exact hinv.slots.ring.modulusRx_add (by omega)

theorem status_le_windowSize (hinv : e.WindowInv s h) : s ≤ e.cfg.windowSize :=
  hinv.status_le.trans hinv.slots.le

/-- The scan goes over empty slots, not beyond `rx_highest_status`. -/
theorem scanSlots (hinv : e.WindowInv s h) (fuel : ℕ) (ha : a ≤ s) :
    ∃ b, a ≤ b ∧ b ≤ s ∧
      e.scanSlots fuel ((e.rxNext + a) % e.cfg.snModulus) = e.rx.ahead e.rxNext b ∧
      ∀ k, a ≤ k → k < b → e.rx.ahead e.rxNext k = [] := by
  have hslot := hinv.slots.ring.getPduFromSn_ahead a
  have hstay : ∀ k, a ≤ k → k < a → e.rx.ahead e.rxNext k = [] :=
    fun k hak hka => absurd hka (Nat.not_lt.mpr hak)
  induction fuel generalizing a with
  | zero => exact ⟨a, Nat.le_refl a, ha, hslot, hstay⟩
  | succ fuel ih =>
    rw [AmEntity.scanSlots, hslot]
    split_ifs with hstatus
    · exact ⟨a, Nat.le_refl a, ha, rfl, hstay⟩
    · split
      next hempty =>
        have has : a ≠ s := by
          rintro rfl
          exact hstatus hinv.highestStatus.symm
        have hnext : e.nextSn ((e.rxNext + a) % e.cfg.snModulus) =
            (e.rxNext + (a + 1)) % e.cfg.snModulus := by
          rw [nextSn, Nat.mod_add_mod]
          rfl
        rw [hnext]
        obtain ⟨b, hab, hbs, hscan, hall⟩ := ih (a := a + 1) (by omega)
          (hinv.slots.ring.getPduFromSn_ahead (a + 1))
          fun k hak hka => absurd hka (Nat.not_lt.mpr hak)
        refine ⟨b, by omega, hbs, hscan, fun k hak hkb => ?_⟩
        rcases Nat.eq_or_lt_of_le hak with rfl | hlt
        · exact hempty
        · exact hall k hlt hkb
      next pdu l hcons => exact ⟨a, Nat.le_refl a, ha, hcons.symm, hstay⟩

/-- A slot up to `rx_highest_status` is one of the window. When all of the window is filled,
`rx_highest_status` has the slot of `rx_next`. -/
theorem position_of_ahead (hinv : e.WindowInv s h) (hbs : b ≤ s)
    (hl : e.rx.ahead e.rxNext b = cur :: rest) :
    e.Position s b cur rest ∨ (b = e.cfg.windowSize ∧ e.Position s 0 cur rest) := by
  rcases Nat.eq_or_lt_of_le (hbs.trans hinv.status_le_windowSize) with hfull | hlt
  · refine .inr ⟨hfull, e.cfg.windowSize_pos, Nat.zero_le s, ?_⟩
    rw [← hl, hfull, ← hinv.slots.ring.size_eq, ← RxManager.ahead_mod _ e.rx.size, Nat.mod_self]
  · exact .inl ⟨hlt, hbs, hl ▸ List.suffix_refl _⟩

theorem reaches_ahead (hinv : e.WindowInv s h) (hbs : b ≤ s) :
    e.Reaches s (e.rx.ahead e.rxNext b) := by
  cases hl : e.rx.ahead e.rxNext b with
  | nil => exact .inl rfl
  | cons cur rest =>
    rcases hinv.position_of_ahead hbs hl with hpos | ⟨-, hpos⟩
    · exact .inr ⟨cur, rest, b, rfl, hpos⟩
    · exact .inr ⟨cur, rest, 0, rfl, hpos⟩

theorem reaches_getFirstRxPdu (hinv : e.WindowInv s h) : e.Reaches s e.getFirstRxPdu := by
  obtain ⟨b, -, hbs, hscan, -⟩ := hinv.scanSlots e.cfg.snModulus (Nat.zero_le s)
  rw [Nat.add_zero, Nat.mod_eq_of_lt hinv.slots.ring.rxNext_lt] at hscan
  rw [getFirstRxPdu, hscan]
  exact hinv.reaches_ahead hbs

/-- The next segment is further on, or the scan has come round to `rx_next`: then it belongs neither
to the same SDU nor to the next one. -/
theorem getNextRxPdu (hinv : e.WindowInv s h) (hpos : e.Position s b cur rest) :
    e.getNextRxPdu cur rest = [] ∨ ∃ cur' rest' b',
      e.getNextRxPdu cur rest = cur' :: rest' ∧ e.Position s b' cur' rest' ∧
        (e.behind b' rest' < e.behind b rest ∨ (cur'.sn ≠ cur.sn ∧ cur'.sn ≠ e.nextSn cur.sn)) := by
  cases rest with
  | cons cur' rest' =>
    refine .inr ⟨cur', rest', b, rfl, ⟨hpos.lt, hpos.le, ?_⟩, .inl ?_⟩
    · exact (List.suffix_cons cur _).trans hpos.suffix
    · rw [behind, behind, List.length_cons]
      omega
  | nil =>
    rw [AmEntity.getNextRxPdu]
    split_ifs with hstatus
    · exact .inl rfl
    · have hbs : b + 1 ≤ s := by
        refine Nat.succ_le_of_lt (lt_of_le_of_ne hpos.le fun heq => hstatus ?_)
        rw [hinv.sn_eq hpos, hinv.highestStatus, heq]
      have hnext : e.nextSn cur.sn = (e.rxNext + (b + 1)) % e.cfg.snModulus := by
        rw [hinv.sn_eq hpos, nextSn, Nat.mod_add_mod]
        rfl
      obtain ⟨b', hbb', hbs', hscan, hall⟩ := hinv.scanSlots e.cfg.snModulus hbs
      rw [hnext, hscan]
      cases hl : e.rx.ahead e.rxNext b' with
      | nil => exact .inl rfl
      | cons cur' rest' =>
        refine .inr ?_
        rcases hinv.position_of_ahead hbs' hl with hpos' | ⟨hfull, hpos'⟩
        · exact ⟨cur', rest', b', rfl, hpos', .inl (behind_lt_of_lt hbb' hpos'.lt hpos'.suffix)⟩
        · refine ⟨cur', rest', 0, rfl, hpos', .inr ⟨fun heq => ?_, fun heq => ?_⟩⟩
          · -- the last slot of a full window is found before the scan comes round
            have hzero := congrArg e.modulusRx heq
            rw [hinv.modulusRx_sn hpos', hinv.modulusRx_sn hpos] at hzero
            have hh : h = e.cfg.windowSize - 1 + 1 := by
              have hle := hinv.slots.le
              have hsh := hinv.status_le
              omega
            have htwo := e.cfg.one_lt_windowSize
            exact hinv.slots.last _ hh (hall _ (by omega) (by omega))
          · have hzero := congrArg e.modulusRx heq
            rw [← hnext, hinv.modulusRx_sn hpos', hinv.modulusRx_nextSn hpos] at hzero
            omega

end WindowInv

/-! ### Missing parts -/

theorem next_of_report {m m' : Missing} (h : e.report m = some m') : m'.next = m.next := by
  rw [report] at h
  split_ifs at h
  cases h
  rfl

theorem next_setEndDifferentSdu (e : AmEntity) (cur : Pdu) (m : Missing) :
    (e.setEndDifferentSdu cur m).next = m.next ∨ (e.setEndDifferentSdu cur m).next = [] := by
  rw [setEndDifferentSdu]
  split_ifs
  · exact .inl rfl
  · exact .inr rfl
  · exact .inl rfl
  · exact .inr rfl

theorem reaches_of_report {m m' : Missing} (hl : e.Reaches s m.next) (h : e.report m = some m') :
    e.Reaches s m'.next :=
  next_of_report h ▸ hl

theorem reaches_of_report_map {m m' : Missing} (hl : e.Reaches s m.next)
    (h : (e.report m).map (e.setEndDifferentSdu cur) = some m') : e.Reaches s m'.next := by
  obtain ⟨m₁, hm₁, rfl⟩ := Option.map_eq_some_iff.mp h
  have hl₁ := reaches_of_report hl hm₁
  rcases e.next_setEndDifferentSdu cur m₁ with hsame | hnone
  · exact hsame ▸ hl₁
  · exact .inl hnone

namespace WindowInv

/-- The rounds of the search end, at a segment of the window. -/
theorem exists_nextMissingFrom (hinv : e.WindowInv s h) (hpos : e.Position s b cur rest)
    (maxSo : ℕ) (lastReached : Bool) (hfuel : e.behind b rest < fuel) :
    ∃ o, e.nextMissingFrom fuel cur rest maxSo lastReached = some o ∧
      ∀ m, o = some m → e.Reaches s m.next := by
  induction fuel generalizing b cur rest maxSo lastReached with
  | zero => exact absurd hfuel (Nat.not_lt_zero _)
  | succ fuel ih =>
    rw [nextMissingFrom]
    rcases hinv.getNextRxPdu hpos with hnext | ⟨cur', rest', b', hnext, hpos', hdecr⟩
    · rw [hnext]
      exact ⟨_, rfl, fun m hm => reaches_of_report (.inl rfl) hm⟩
    · rw [hnext]
      have hreaches : e.Reaches s (cur' :: rest') := .inr ⟨cur', rest', b', rfl, hpos'⟩
      dsimp only
      split_ifs with hsame hsucc hgap
      · have hlt := hdecr.resolve_right fun hround => hround.1 hsame.1
        exact ih hpos' _ _ (by omega)
      · have hlt := hdecr.resolve_right fun hround => hround.2 hsucc.1
        exact ih hpos' _ _ (by omega)
      · exact ⟨_, rfl, fun m hm => reaches_of_report hreaches hm⟩
      · exact ⟨_, rfl, fun m hm => reaches_of_report_map hreaches hm⟩

/-- The search for a missing part ends. -/
theorem exists_nextMissing (hinv : e.WindowInv s h) (hpos : e.Position s b cur rest)
    (checkHead : Bool) (hfuel : e.stored ≤ fuel) :
    ∃ o, e.nextMissing fuel cur rest checkHead = some o ∧ ∀ m, o = some m → e.Reaches s m.next := by
  rw [nextMissing]
  split_ifs with hhead
  · refine ⟨_, rfl, fun m hm => reaches_of_report_map ?_ hm⟩
    exact .inr ⟨cur, rest, b, rfl, hpos⟩
  · exact hinv.exists_nextMissingFrom hpos 0 false (hpos.behind_lt.trans_le hfuel)

/-- The loop over the missing parts ends: each part makes the report longer. -/
theorem exists_generateStatusFrom (hinv : e.WindowInv s h) {c : StatusEncoder}
    (hholds : c.Holds n size) (hl : e.Reaches s l) (checkHead : Bool) (lastNack : ℕ)
    (hfuel : e.stored + (n - size) + 2 ≤ fuel) :
    ∃ r, e.generateStatusFrom fuel l checkHead c lastNack = some r := by
  induction fuel generalizing c size l checkHead lastNack with
  | zero => omega
  | succ fuel ih =>
    rcases hl with rfl | ⟨cur, rest, b, rfl, hpos⟩
    · exact ⟨_, rfl⟩
    · rw [generateStatusFrom]
      obtain ⟨o, ho, hreaches⟩ :=
        hinv.exists_nextMissing hpos checkHead (by omega : e.stored ≤ fuel)
      rw [ho]
      cases o with
      | none => exact ⟨_, rfl⟩
      | some m =>
        obtain ⟨c', last, size', rangeCount, truncated, hgenerate, -, hholds', hprogress⟩ :=
          generateMissing_eq (e := e) hholds m
        dsimp only
        rw [hgenerate]
        cases truncated with
        | true =>
          obtain ⟨fuel, rfl⟩ := Nat.exists_eq_succ_of_ne_zero (n := fuel) (by omega)
          exact ⟨_, rfl⟩
        | false =>
          have hlonger := (hprogress rfl).1
          have hle := hholds'.le
          exact ih hholds' (hreaches m rfl) false _ (by omega)

end WindowInv

/-- The rounds that a report in `n` bytes needs at most. -/
def statusRounds (e : AmEntity) (n : ℕ) : ℕ := e.stored + n + 2

theorem ReceiverInv.exists_generateStatus_eq_some (hinv : e.ReceiverInv) (n : ℕ) :
    ∃ r, e.generateStatus (e.statusRounds n) n = some r := by
  obtain ⟨s, h, hwindow, -⟩ := hinv
  rw [generateStatus]
  by_cases hsmall : n < 3
  · rw [if_pos hsmall]
    exact ⟨_, rfl⟩
  rw [if_neg hsmall]
  obtain ⟨c, hc, hlength, hbuffer⟩ := (Encoder.init n).exists_putBits 0 24
    (by simp only [Encoder.init, List.length_nil]; omega)
  have hinit : StatusEncoder.Holds ⟨c, 2, if e.cfg.snFieldLength = .sn18 then 1 else 7, none⟩ n 3 :=
    ⟨hlength, hbuffer, Nat.not_lt.mp hsmall, fun _ hnone => by cases hnone⟩
  have hrounds : e.stored + (n - 3) + 2 ≤ e.statusRounds n := by
    rw [statusRounds]
    omega
  obtain ⟨r, hr⟩ := hwindow.exists_generateStatusFrom hinit hwindow.reaches_getFirstRxPdu true
    (e.prevSn e.rxNext) hrounds
  simp only [Option.bind_eq_bind, hc, Option.bind_some, hr]
  exact ⟨_, rfl⟩

/-! ### More rounds -/

/-- A search that has ended does not need more rounds. -/
theorem nextMissingFrom_mono {maxSo : ℕ} {lastReached : Bool} {o : Option Missing}
    (h : e.nextMissingFrom fuel cur rest maxSo lastReached = some o) :
    e.nextMissingFrom (fuel + 1) cur rest maxSo lastReached = some o := by
  induction fuel generalizing cur rest maxSo lastReached with
  | zero => cases h
  | succ fuel ih =>
    rw [nextMissingFrom] at h ⊢
    cases hnext : e.getNextRxPdu cur rest with
    | nil => rwa [hnext] at h
    | cons cur' rest' =>
      rw [hnext] at h
      dsimp only at h ⊢
      split_ifs at h ⊢
      · exact ih h
      · exact ih h
      · exact h
      · exact h

theorem nextMissing_mono {checkHead : Bool} {o : Option Missing}
    (h : e.nextMissing fuel cur rest checkHead = some o) :
    e.nextMissing (fuel + 1) cur rest checkHead = some o := by
  rw [nextMissing] at h ⊢
  split_ifs at h ⊢
  · exact h
  · exact nextMissingFrom_mono h

theorem generateStatusFrom_mono {checkHead : Bool} {c : StatusEncoder} {lastNack : ℕ}
    {r : StatusEncoder × ℕ} (h : e.generateStatusFrom fuel l checkHead c lastNack = some r) :
    e.generateStatusFrom (fuel + 1) l checkHead c lastNack = some r := by
  induction fuel generalizing l checkHead c lastNack with
  | zero => cases h
  | succ fuel ih =>
    cases l with
    | nil => exact h
    | cons cur rest =>
      rw [generateStatusFrom] at h ⊢
      cases hmissing : e.nextMissing fuel cur rest checkHead with
      | none =>
        rw [hmissing] at h
        cases h
      | some o =>
        rw [hmissing] at h
        rw [nextMissing_mono hmissing]
        cases o with
        | none => exact h
        | some m =>
          cases hgenerate : e.generateMissing m c with
          | none =>
            simp only [hgenerate] at h
            cases h
          | some written =>
            simp only [hgenerate] at h ⊢
            exact ih h

theorem generateStatus_mono {rounds : ℕ} {r : List UInt8 × AmEntity}
    (h : e.generateStatus rounds n = some r) (hfuel : rounds ≤ fuel) :
    e.generateStatus fuel n = some r := by
  induction fuel, hfuel using Nat.le_induction with
  | base => exact h
  | succ fuel _ ih =>
    rw [generateStatus] at ih ⊢
    by_cases hsmall : n < 3
    · rwa [if_pos hsmall] at ih ⊢
    · rw [if_neg hsmall] at ih ⊢
      simp only [Option.bind_eq_bind, Option.bind_eq_some_iff] at ih ⊢
      obtain ⟨c, hc, written, hwritten, hr⟩ := ih
      exact ⟨c, hc, written, generateStatusFrom_mono hwritten, hr⟩

end AmEntity

/-- In every state of every run a report for `n` bytes is written, whatever the number of rounds
that it is given beyond those it needs: the encoder does not run full. The report has the size that
`status_size` announces, and at most `n` bytes. -/
theorem AmRun.exists_generateStatus {cfg : AmConfig} {ops : List AmOp} {e : AmEntity}
    (h : AmRun cfg ops e) (n : ℕ) :
    ∃ rounds pdu e', pdu.length ≤ n ∧ ∀ fuel, rounds ≤ fuel →
      e.generateStatus fuel n = some (pdu, e') ∧ e.statusSize fuel n = some pdu.length := by
  obtain ⟨⟨pdu, e'⟩, hr⟩ := h.receiverInv.exists_generateStatus_eq_some n
  have hall : ∀ fuel, e.statusRounds n ≤ fuel → e.generateStatus fuel n = some (pdu, e') ∧
      e.statusSize fuel n = some pdu.length ∧ pdu.length ≤ n := by
    intro fuel hfuel
    have hwritten := AmEntity.generateStatus_mono hr hfuel
    rcases AmEntity.generateStatus_eq e fuel n with ⟨pdu', e₁, hpdu, hsize, hle⟩ | ⟨hnone, -⟩
    · rw [hwritten] at hpdu
      cases hpdu
      exact ⟨hwritten, hsize, hle⟩
    · rw [hwritten] at hnone
      cases hnone
  exact ⟨e.statusRounds n, pdu, e', (hall _ (Nat.le_refl _)).2.2,
    fun fuel hfuel => ⟨(hall fuel hfuel).1, (hall fuel hfuel).2.1⟩⟩

/-- A report of a receiver that has one SDU and misses the one before. -/
theorem exists_generateStatus_one_missing : ∃ e, AmRun exampleCfg [.recvPdu (dataBuffer 1)] e ∧
    ∃ rounds pdu e', pdu.length ≤ 10 ∧ ∀ fuel, rounds ≤ fuel →
      e.generateStatus fuel 10 = some (pdu, e') ∧ e.statusSize fuel 10 = some pdu.length := by
  have hrun : ([.recvPdu (dataBuffer 1)].foldlM (AmEntity.op 5) (.new exampleCfg)).isSome := by
    decide +kernel
  obtain ⟨e, he⟩ := Option.isSome_iff_exists.mp hrun
  have hnew : AmRun exampleCfg [] (.new exampleCfg) := .start rfl
  have hrun : AmRun exampleCfg [.recvPdu (dataBuffer 1)] e :=
    hnew.append_foldlM (fun op _ e e' h => ⟨5, h⟩) he
  exact ⟨e, hrun, hrun.exists_generateStatus 10⟩

end LlmHric.Rlc
