import LlmHric.Rlc.TransmitBuffer
import Mathlib.Order.Interval.Finset.Nat

/-! The wait list and the retransmit list are ordered by sequence number, relative to `tx_next_ack`,
and by offset. A segment moves between the lists in five functions, each with a shortcut for the
head or for the end of a list. The order is kept as long as every sequence number in use is between
`tx_next_ack` and `tx_next`. A status PDU that acknowledges all that was sent of an SDU, of which a
part is still to be sent, moves `tx_next_ack` past the sequence number of the rest. -/

namespace LlmHric.Rlc

namespace AmEntity

variable {e e' : AmEntity} {s t : Segment} {l l' : List Segment}

/-! ### Insertion -/

/-- Strictly increasing places. -/
abbrev Sorted (e : AmEntity) (l : List Segment) : Prop :=
  l.Pairwise fun s t => e.place s < e.place t

/-- The position of the last element. -/
def lastPos : List Segment → Option ℕ
  | [] => none
  | _ :: l => some l.length

theorem SnInv.goesBefore_iff (h : e.SnInv) : e.goesBefore s t = true ↔ e.place s < e.place t := by
  have hinj : e.snOf t = e.snOf s ↔ e.modulusTx (e.snOf s) = e.modulusTx (e.snOf t) :=
    ⟨fun heq => by rw [heq], fun heq => (h.modulusTx_inj (h.snOf s) (h.snOf t) heq).symm⟩
  simp only [goesBefore, Bool.or_eq_true, Bool.and_eq_true, decide_eq_true_eq, beq_iff_eq, hinj,
    gt_iff_lt, place_lt_place]

theorem listAdd_cons (s cur : Segment) (l : List Segment) :
    e.listAdd s (cur :: l) =
      if e.goesBefore s cur then s :: cur :: l else cur :: e.listAdd s l := by
  rw [listAdd, listAddPos]
  split_ifs <;> simp [listAdd]

/-- A segment at another place than the ones in a sorted list is put where it belongs. -/
theorem Sorted.listAdd (hinv : e.SnInv) (h : e.Sorted l) (hne : ∀ t ∈ l, e.place s ≠ e.place t) :
    e.Sorted (e.listAdd s l) := by
  induction l with
  | nil => exact List.pairwise_singleton _ _
  | cons cur l ih =>
    obtain ⟨hcur, hl⟩ := List.pairwise_cons.mp h
    rw [listAdd_cons]
    split_ifs with hbefore
    · have hlt := hinv.goesBefore_iff.mp hbefore
      refine List.pairwise_cons.mpr ⟨fun t ht => ?_, h⟩
      rcases List.mem_cons.mp ht with rfl | ht
      · exact hlt
      · exact hlt.trans (hcur t ht)
    · have hlt : e.place cur < e.place s := by
        refine lt_of_le_of_ne (not_lt.mp fun hlt => hbefore (hinv.goesBefore_iff.mpr hlt)) ?_
        exact (hne cur (List.mem_cons_self ..)).symm
      refine List.pairwise_cons.mpr ⟨fun t ht => ?_, ih hl fun t ht => ?_⟩
      · rcases List.mem_cons.mp ((perm_listAdd s l).subset ht) with rfl | ht
        · exact hlt
        · exact hcur t ht
      · exact hne t (List.mem_cons_of_mem _ ht)

/-- The insertion does not pass a segment that belongs behind. -/
theorem listAddPos_le {i : ℕ} (ht : l[i]? = some t) (hbefore : e.goesBefore s t = true) :
    e.listAddPos s l ≤ i := by
  induction l generalizing i with
  | nil => cases ht
  | cons cur l ih =>
    rw [listAddPos]
    split_ifs with hcur
    · exact Nat.zero_le i
    · cases i with
      | zero =>
        obtain rfl := Option.some.inj ht
        exact absurd hbefore hcur
      | succ i => exact Nat.succ_le_succ (ih ht)

theorem lastPos_append_singleton (l : List Segment) (s : Segment) :
    lastPos (l ++ [s]) = some l.length := by
  cases l with
  | nil => rfl
  | cons t l => simp [lastPos]

theorem lastPos_of_length {n : ℕ} (h : l.length = n + 1) : lastPos l = some n := by
  cases l with
  | nil => cases h
  | cons t l => exact congrArg some (Nat.succ.inj h)

/-- The wait list stays sorted, and `wait_end` its end. -/
theorem putInWaitList_spec (hinv : e.SnInv) (hsorted : e.Sorted e.waitList)
    (hend : e.waitEnd = lastPos e.waitList) (hne : ∀ t ∈ e.waitList, e.place s ≠ e.place t)
    (h : e.putInWaitList s = some e') :
    ∃ waitList, e' = { e with waitList, waitEnd := lastPos waitList } ∧ e.Sorted waitList ∧
      waitList.Perm (s :: e.waitList) := by
  rcases List.eq_nil_or_concat' e.waitList with hlist | ⟨init, last, hlist⟩
  · rw [hlist] at hend
    simp only [putInWaitList, hend, lastPos, Option.bind_none, appendWait, hlist] at h
    rw [hlist]
    exact ⟨[s], (Option.some.inj h).symm, List.pairwise_singleton _ _, .refl _⟩
  · have hpos : e.waitEnd = some init.length := by
      rw [hend, hlist, lastPos_append_singleton]
    have hlast : e.waitList[init.length]? = some last := by
      simp [hlist]
    have hle : ∀ t ∈ e.waitList, e.place t ≤ e.place last := by
      rw [hlist] at hsorted ⊢
      intro t ht
      rcases List.mem_append.mp ht with ht | ht
      · exact ((List.pairwise_append.mp hsorted).2.2 t ht last (List.mem_singleton_self _)).le
      · rw [List.mem_singleton.mp ht]
    rw [putInWaitList, hpos, Option.bind_some, hlast] at h
    dsimp only at h
    split_ifs at h with hafter
    · have hlt : e.place last < e.place s := by
        rw [place_lt_place]
        exact hafter.imp id fun h => ⟨h.1.symm, h.2⟩
      have happend : e.appendWait s = some { e with
          waitList := e.waitList ++ [s], waitEnd := lastPos (e.waitList ++ [s]) } := by
        have hlength : e.waitList.length = init.length + 1 := by simp [hlist]
        have htake : e.waitList.take (init.length + 1) = e.waitList := by
          rw [← hlength, List.take_length]
        rw [lastPos_append_singleton, hlength, appendWait]
        split
        · next hnil => simp [hnil] at hlength
        · next hnone => cases hpos.symm.trans hnone
        · next i _ hsome =>
          obtain rfl := Option.some.inj (hpos.symm.trans hsome)
          rw [htake]
      refine ⟨e.waitList ++ [s], Option.some.inj (h.symm.trans happend), ?_, ?_⟩
      · refine List.pairwise_append.mpr ⟨hsorted, List.pairwise_singleton _ _, ?_⟩
        intro t ht x hx
        rw [List.mem_singleton.mp hx]
        exact (hle t ht).trans_lt hlt
      · exact List.perm_append_singleton s e.waitList
    · have hlt : e.place s < e.place last := by
        refine lt_of_le_of_ne (not_lt.mp fun hlt => hafter ?_) (hne last ?_)
        · exact (place_lt_place.mp hlt).imp id fun h => ⟨h.1.symm, h.2⟩
        · exact List.mem_of_getElem? hlast
      have hadd : e.addWait s = { e with
          waitList := e.listAdd s e.waitList, waitEnd := lastPos (e.listAdd s e.waitList) } := by
        have hlength : (e.listAdd s e.waitList).length = init.length + 1 + 1 := by
          rw [(perm_listAdd s e.waitList).length_eq, List.length_cons, hlist]
          simp
        have hbefore := listAddPos_le hlast (hinv.goesBefore_iff.mpr hlt)
        rw [addWait, lastPos_of_length hlength]
        simp only [hlength, hpos, Option.map_some, if_pos hbefore]
        rfl
      refine ⟨e.listAdd s e.waitList, (Option.some.inj h).symm.trans hadd, ?_, ?_⟩
      · exact hsorted.listAdd hinv hne
      · exact perm_listAdd s e.waitList

/-! ### Byte ranges -/

/-- Two segments of an SDU have no byte in common, and start at different bytes. -/
def Apart (s t : Segment) : Prop :=
  s.sdu = t.sdu → s.so + s.size ≤ t.so ∧ s.so < t.so ∨ t.so + t.size ≤ s.so ∧ t.so < s.so

theorem Apart.symm (h : Apart s t) : Apart t s := fun heq => (h heq.symm).symm

/-- Segments that are apart from each other, of SDUs that do not share a sequence number. -/
structure Distinct (e : AmEntity) (l : List Segment) : Prop where
  apart : l.Pairwise Apart
  fresh (s : Segment) : s ∈ l → s.sdu < e.sduCount
  unique (s t : Segment) (sn : ℕ) : s ∈ l → t ∈ l → (e.sdus s.sdu).sn = some sn →
    (e.sdus t.sdu).sn = some sn → s.sdu = t.sdu

namespace Distinct

theorem subperm (h : e.Distinct l) (hl : l'.Subperm l) : e.Distinct l' := by
  obtain ⟨l₁, hperm, hsub⟩ := hl
  have hmem : ∀ s ∈ l', s ∈ l := fun s hs => hsub.subset (hperm.mem_iff.mpr hs)
  refine ⟨?_, fun s hs => h.fresh s (hmem s hs), ?_⟩
  · exact (hperm.pairwise_iff fun h => h.symm).mp (h.apart.sublist hsub)
  · exact fun s t sn hs ht => h.unique s t sn (hmem s hs) (hmem t ht)

theorem perm (h : e.Distinct l) (hl : l'.Perm l) : e.Distinct l' := h.subperm hl.subperm

/-- Sequence numbers decide. -/
theorem congr (h : e.Distinct l) (hsn : ∀ i, (e'.sdus i).sn = (e.sdus i).sn)
    (hcount : e'.sduCount = e.sduCount) : e'.Distinct l := by
  refine ⟨h.apart, fun s hs => hcount ▸ h.fresh s hs, fun s t sn hs ht => ?_⟩
  rw [hsn, hsn]
  exact h.unique s t sn hs ht

/-- Segments with sequence numbers have different places. -/
theorem place_ne (h : e.Distinct (s :: l)) (hinv : e.SnInv) (ht : t ∈ l)
    (hs : (e.sdus s.sdu).sn ≠ none) (ht' : (e.sdus t.sdu).sn ≠ none) : e.place s ≠ e.place t := by
  intro heq
  obtain ⟨hmod, hso⟩ := Prod.mk.inj (toLex.injective heq)
  have hsn : e.snOf s = e.snOf t := hinv.modulusTx_inj (hinv.snOf s) (hinv.snOf t) hmod
  obtain ⟨a, ha⟩ := Option.ne_none_iff_exists'.mp hs
  obtain ⟨b, hb⟩ := Option.ne_none_iff_exists'.mp ht'
  rw [snOf, snOf, ha, hb, Option.getD_some, Option.getD_some] at hsn
  subst hsn
  have hsdu := h.unique s t a (List.mem_cons_self ..) (List.mem_cons_of_mem _ ht) ha hb
  have hapart := (List.pairwise_cons.mp h.apart).1 t ht hsdu
  omega

end Distinct

/-- The two parts of a segment that is cut. -/
inductive IsCut (s x : Segment) : List Segment → Prop
  | whole : x = s → IsCut s x []
  | parts (y : Segment) : x.sdu = s.sdu → x.so = s.so → 0 < x.size → y.sdu = s.sdu →
      y.so = s.so + x.size → 0 < y.size → x.size + y.size = s.size → IsCut s x [y]

theorem isCut_cutSegment {size : ℕ} (hroom : e.computePduHeaderSize s + 1 ≤ size) :
    IsCut s (e.cutSegment s size).1 (e.cutSegment s size).2 := by
  rw [cutSegment]
  split_ifs with hcut
  · refine .parts _ rfl rfl ?_ rfl rfl ?_ ?_
    · change 0 < s.size - (e.computePduHeaderSize s + s.size - size)
      omega
    · change 0 < e.computePduHeaderSize s + s.size - size
      omega
    · change s.size - (e.computePduHeaderSize s + s.size - size) +
        (e.computePduHeaderSize s + s.size - size) = s.size
      omega
  · exact .whole rfl

/-- The parts are apart from each other and from what the segment was apart from. -/
theorem Distinct.cut {x : Segment} {left : List Segment} (h : e.Distinct (s :: l))
    (hcut : IsCut s x left) : e.Distinct (x :: (left ++ l)) := by
  cases hcut with
  | whole heq => exact heq ▸ h
  | parts y hx hxso hxsize hy hyso hysize hsum =>
    obtain ⟨hs, hl⟩ := List.pairwise_cons.mp h.apart
    have hmem : ∀ z ∈ x :: y :: l, ∃ z' ∈ s :: l, z'.sdu = z.sdu := by
      intro z hz
      rcases List.mem_cons.mp hz with rfl | hz
      · exact ⟨s, List.mem_cons_self .., hx.symm⟩
      · rcases List.mem_cons.mp hz with rfl | hz
        · exact ⟨s, List.mem_cons_self .., hy.symm⟩
        · exact ⟨z, List.mem_cons_of_mem _ hz, rfl⟩
    refine ⟨?_, fun z hz => ?_, fun z w sn hz hw => ?_⟩
    · refine List.pairwise_cons.mpr ⟨fun t ht => ?_, List.pairwise_cons.mpr ⟨fun t ht => ?_, hl⟩⟩
      · rcases List.mem_cons.mp ht with rfl | ht
        · intro _
          omega
        · intro heq
          have hapart := hs t ht (hx.symm.trans heq)
          omega
      · intro heq
        have hapart := hs t ht (hy.symm.trans heq)
        omega
    · obtain ⟨z', hz', heq⟩ := hmem z hz
      exact heq ▸ h.fresh z' hz'
    · obtain ⟨z', hz', hzeq⟩ := hmem z hz
      obtain ⟨w', hw', hweq⟩ := hmem w hw
      rw [← hzeq, ← hweq]
      exact h.unique z' w' sn hz' hw'

/-! ### The invariant -/

/-- A segment has a sequence number between `tx_next_ack` and `tx_next`. -/
def IsSent (e : AmEntity) (s : Segment) : Prop :=
  ∃ sn, (e.sdus s.sdu).sn = some sn ∧ e.modulusTx sn < e.modulusTx e.txNext

/-- The invariant of the transmitting side. -/
structure OrderInv (e : AmEntity) : Prop where
  snInv : e.SnInv
  window : e.modulusTx e.txNext ≤ e.cfg.windowSize
  waitSorted : e.Sorted e.waitList
  retransmitSorted : e.Sorted e.retransmitList
  waitEnd : e.waitEnd = lastPos e.waitList
  distinct : e.Distinct e.segments
  sent (s : Segment) : s ∈ e.waitList ++ e.retransmitList → e.IsSent s
  /-- Only the first SDU of the transmit list can have a sequence number, -/
  queue : e.txList.Pairwise fun s t => s.sdu ≠ t.sdu ∧ (e.sdus t.sdu).sn = none
  /-- and it is the latest one. -/
  latest (s : Segment) (sn : ℕ) : s ∈ e.txList → (e.sdus s.sdu).sn = some sn →
    e.modulusTx sn + 1 = e.modulusTx e.txNext

/-- Two states have the same sequence numbers. -/
structure SameSns (e e' : AmEntity) : Prop where
  cfg : e'.cfg = e.cfg
  txNext : e'.txNext = e.txNext
  txNextAck : e'.txNextAck = e.txNextAck
  sduCount : e'.sduCount = e.sduCount
  sn (i : ℕ) : (e'.sdus i).sn = (e.sdus i).sn

namespace SameSns

theorem modulusTx (h : e.SameSns e') : e'.modulusTx = e.modulusTx := by
  funext a
  rw [AmEntity.modulusTx, AmEntity.modulusTx, h.cfg, h.txNextAck]

theorem snOf (h : e.SameSns e') : e'.snOf = e.snOf := by
  funext s
  rw [AmEntity.snOf, AmEntity.snOf, h.sn]

theorem place (h : e.SameSns e') : e'.place = e.place := by
  funext s
  rw [AmEntity.place, AmEntity.place, h.modulusTx, h.snOf]

theorem isSent (h : e.SameSns e') : e'.IsSent = e.IsSent := by
  funext s
  rw [IsSent, IsSent, h.modulusTx, h.txNext, h.sn]

theorem trans {e'' : AmEntity} (h : e.SameSns e') (h' : e'.SameSns e'') : e.SameSns e'' :=
  ⟨h'.cfg.trans h.cfg, h'.txNext.trans h.txNext, h'.txNextAck.trans h.txNextAck,
    h'.sduCount.trans h.sduCount, fun i => (h'.sn i).trans (h.sn i)⟩

theorem setSdu {i : ℕ} {sdu : Sdu} (h : sdu.sn = (e.sdus i).sn) : e.SameSns (e.setSdu i sdu) := by
  refine ⟨rfl, rfl, rfl, rfl, fun j => ?_⟩
  change (Function.update e.sdus i sdu j).sn = (e.sdus j).sn
  by_cases hj : j = i
  · rw [hj, Function.update_self, h]
  · rw [Function.update_of_ne hj]

theorem ackSegment : e.SameSns (e.ackSegment s) := by
  have hset : e.SameSns (e.setSdu s.sdu
      { e.sdus s.sdu with freeCount := (e.sdus s.sdu).freeCount + 1 }) := setSdu rfl
  rw [AmEntity.ackSegment]
  split_ifs
  · exact hset.trans ⟨rfl, rfl, rfl, rfl, fun _ => rfl⟩
  · exact hset

theorem ackRetxSegment : e.SameSns (e.ackRetxSegment s) := by
  have hsize : e.SameSns { e with
      bstatusRetxSize := e.bstatusRetxSize - (e.computePduHeaderSize s + s.size) } :=
    ⟨rfl, rfl, rfl, rfl, fun _ => rfl⟩
  exact hsize.trans ackSegment

theorem nackSegment : e.SameSns (e.nackSegment s) := by
  have hset : e.SameSns (e.setSdu s.sdu
      { e.sdus s.sdu with retxCount := (e.sdus s.sdu).retxCount + 1 }) := setSdu rfl
  rw [AmEntity.nackSegment]
  split_ifs
  · exact hset.trans ⟨rfl, rfl, rfl, rfl, fun _ => rfl⟩
  · exact hset.trans ⟨rfl, rfl, rfl, rfl, fun _ => rfl⟩

theorem snInv (h : e.SameSns e') (hinv : e.SnInv) : e'.SnInv := by
  refine ⟨?_, ?_, fun s => ?_⟩
  · rw [h.txNext, h.cfg]
    exact hinv.txNext
  · rw [h.txNextAck, h.cfg]
    exact hinv.txNextAck
  · rw [h.snOf, h.cfg]
    exact hinv.snOf s

end SameSns

/-- Other lists with the same sequence numbers. -/
theorem OrderInv.relist (h : e.OrderInv) (hsame : e.SameSns e') (hwait : e.Sorted e'.waitList)
    (hretx : e.Sorted e'.retransmitList) (hend : e'.waitEnd = lastPos e'.waitList)
    (hdistinct : e.Distinct e'.segments)
    (hsent : ∀ s ∈ e'.waitList ++ e'.retransmitList, e.IsSent s)
    (hqueue : e'.txList.Pairwise fun s t => s.sdu ≠ t.sdu ∧ (e.sdus t.sdu).sn = none)
    (hlatest : ∀ s ∈ e'.txList, (e.sdus s.sdu).sn ≠ none → ∃ t ∈ e.txList, t.sdu = s.sdu) :
    e'.OrderInv := by
  refine ⟨hsame.snInv h.snInv, ?_, ?_, ?_, hend, hdistinct.congr hsame.sn hsame.sduCount,
    fun s hs => ?_, ?_, fun s sn hs hsn => ?_⟩
  · rw [hsame.modulusTx, hsame.txNext, hsame.cfg]
    exact h.window
  · rw [Sorted, hsame.place]
    exact hwait
  · rw [Sorted, hsame.place]
    exact hretx
  · rw [hsame.isSent]
    exact hsent s hs
  · simp only [hsame.sn]
    exact hqueue
  · rw [hsame.sn] at hsn
    obtain ⟨t, ht, heq⟩ := hlatest s hs (by simp [hsn])
    rw [hsame.modulusTx, hsame.txNext]
    exact h.latest t sn ht (heq ▸ hsn)

/-- Only the segments and their sequence numbers matter. -/
theorem OrderInv.of_txLists (h : e.OrderInv) (heq : e'.txLists = e.txLists) : e'.OrderInv := by
  simp only [txLists, TxLists.mk.injEq] at heq
  obtain ⟨hcfg, hnext, hack, hsdus, hcount, htx, -, hwait, hend, hretx, -, -⟩ := heq
  refine h.relist ⟨hcfg, hnext, hack, hcount, fun i => by rw [hsdus]⟩ ?_ ?_ ?_ ?_ ?_ ?_ ?_
  · exact hwait ▸ h.waitSorted
  · exact hretx ▸ h.retransmitSorted
  · rw [hend, hwait]
    exact h.waitEnd
  · rw [segments, htx, hwait, hretx]
    exact h.distinct
  · rw [hwait, hretx]
    exact h.sent
  · rw [htx]
    exact h.queue
  · rw [htx]
    exact fun s hs _ => ⟨s, hs, rfl⟩

/-- A segment that is sent and apart from the others comes into the wait list. -/
theorem OrderInv.put {x : Segment} (h : e.OrderInv) (hsent : e.IsSent x)
    (hdistinct : e.Distinct (x :: e.segments)) (he : e.putInWaitList x = some e') :
        e'.OrderInv := by
  obtain ⟨sn, hsn, hlt⟩ := hsent
  have hne : ∀ t ∈ e.waitList, e.place x ≠ e.place t := by
    intro t ht
    obtain ⟨sn', hsn', -⟩ := h.sent t (List.mem_append_left _ ht)
    refine hdistinct.place_ne h.snInv ?_ (by simp [hsn]) (by simp [hsn'])
    simp [segments, ht]
  obtain ⟨waitList, rfl, hsorted, hperm⟩ :=
    putInWaitList_spec h.snInv h.waitSorted h.waitEnd hne he
  refine ⟨⟨h.snInv.txNext, h.snInv.txNextAck, h.snInv.snOf⟩, h.window, hsorted, h.retransmitSorted,
    rfl, ?_, fun s hs => ?_, h.queue, h.latest⟩
  · refine (hdistinct.perm ?_).congr (fun _ => rfl) rfl
    have hmiddle : (e.txList ++ (x :: e.waitList) ++ e.retransmitList).Perm (x :: e.segments) := by
      rw [segments, List.append_assoc, List.append_assoc]
      exact List.perm_middle
    exact ((hperm.append_left _).append_right _).trans hmiddle
  · rcases List.mem_append.mp hs with hs | hs
    · rcases List.mem_cons.mp (hperm.subset hs) with rfl | hs
      · exact ⟨sn, hsn, hlt⟩
      · exact h.sent s (List.mem_append_left _ hs)
    · exact h.sent s (List.mem_append_right _ hs)

/-! ### Sending -/

theorem sn_shareSdu (sdus : ℕ → Sdu) (i : ℕ) (left : List Segment) (j : ℕ) :
    (shareSdu sdus i left j).sn = (sdus j).sn := by
  cases left with
  | nil => rfl
  | cons x left =>
    rw [shareSdu]
    by_cases hj : j = i
    · rw [hj, Function.update_self]
    · rw [Function.update_of_ne hj]

theorem IsCut.sdu_eq {x : Segment} {left : List Segment} (h : IsCut s x left) :
    x.sdu = s.sdu ∧ ∀ y ∈ left, y.sdu = s.sdu := by
  cases h with
  | whole heq => exact ⟨heq ▸ rfl, by simp⟩
  | parts y hx _ _ hy => exact ⟨hx, by simpa using hy⟩

theorem IsCut.left_cases {x : Segment} {left : List Segment} (h : IsCut s x left) :
    left = [] ∨ ∃ y, left = [y] ∧ y.sdu = s.sdu := by
  cases h with
  | whole _ => exact .inl rfl
  | parts y _ _ _ hy => exact .inr ⟨y, rfl, hy⟩

/-- What stays of the first segment of a sorted list belongs in front of the others. -/
theorem Sorted.cut {x : Segment} {left rest : List Segment} (h : e.Sorted (s :: rest))
    (hinv : e.SnInv) (hdistinct : e.Distinct (s :: rest))
    (hsent : ∀ t ∈ s :: rest, (e.sdus t.sdu).sn ≠ none) (hcut : IsCut s x left) :
    e.Sorted (left ++ rest) := by
  obtain ⟨hs, hrest⟩ := List.pairwise_cons.mp h
  cases hcut with
  | whole _ => exact hrest
  | parts y hx hxso hxsize hy hyso hysize hsum =>
    refine List.pairwise_cons.mpr ⟨fun t ht => ?_, hrest⟩
    have hsn : e.snOf y = e.snOf s := by
      rw [snOf, snOf, hy]
    have hlt := place_lt_place.mp (hs t ht)
    rw [place_lt_place, hsn]
    refine hlt.imp_right fun hplace => ?_
    obtain ⟨hmod, hso⟩ := hplace
    refine ⟨hmod, ?_⟩
    -- the other segment is of the same SDU, and behind the whole segment
    have heq : e.snOf s = e.snOf t := hinv.modulusTx_inj (hinv.snOf s) (hinv.snOf t) hmod
    obtain ⟨a, ha⟩ := Option.ne_none_iff_exists'.mp (hsent s (List.mem_cons_self ..))
    obtain ⟨b, hb⟩ := Option.ne_none_iff_exists'.mp (hsent t (List.mem_cons_of_mem _ ht))
    rw [snOf, snOf, ha, hb, Option.getD_some, Option.getD_some] at heq
    subst heq
    have hsdu := hdistinct.unique s t a (List.mem_cons_self ..) (List.mem_cons_of_mem _ ht) ha hb
    have hapart := (List.pairwise_cons.mp hdistinct.apart).1 t ht hsdu
    omega

theorem IsSent.sn_ne_none (h : e.IsSent s) : (e.sdus s.sdu).sn ≠ none := by
  obtain ⟨sn, hsn, -⟩ := h
  simp [hsn]

theorem IsSent.of_sdu (h : e.IsSent s) (heq : t.sdu = s.sdu) : e.IsSent t := by
  obtain ⟨sn, hsn, hlt⟩ := h
  exact ⟨sn, heq ▸ hsn, hlt⟩

theorem OrderInv.sendRetx {rest : List Segment} {size : ℕ} (h : e.OrderInv)
    (hlist : e.retransmitList = s :: rest) (hroom : e.computePduHeaderSize s + 1 ≤ size)
    (he : (e.takeRetx s rest size).2.putInWaitList (e.takeRetx s rest size).1 = some e') :
    e'.OrderInv := by
  have hcut := isCut_cutSegment hroom
  rw [takeRetx_eq] at he
  set x := (e.cutSegment s size).1
  set left := (e.cutSegment s size).2
  have hsent : ∀ t ∈ s :: rest, e.IsSent t := by
    intro t ht
    refine h.sent t (List.mem_append_right _ ?_)
    rw [hlist]
    exact ht
  have hmiddle : (s :: (e.txList ++ e.waitList ++ rest)).Perm e.segments := by
    rw [segments, hlist]
    exact List.perm_middle.symm
  have hparts : e.Distinct (x :: (e.txList ++ e.waitList ++ (left ++ rest))) := by
    refine ((h.distinct.perm hmiddle).cut hcut).perm (.cons _ ?_)
    rw [List.perm_iff_count]
    intro z
    simp only [List.count_append]
    omega
  have hsame : e.SameSns { e with
      sdus := shareSdu e.sdus s.sdu left
      retransmitList := left ++ rest
      bstatusRetxSize := e.bstatusRetxSize - (e.computePduHeaderSize s + s.size : ℕ) +
        e.pduSizes left } := ⟨rfl, rfl, rfl, rfl, sn_shareSdu e.sdus s.sdu left⟩
  have htaken := h.relist hsame h.waitSorted ?_ h.waitEnd
    (hparts.subperm (List.sublist_cons_self ..).subperm) ?_ h.queue fun t ht _ => ⟨t, ht, rfl⟩
  · refine htaken.put ?_ (hparts.congr hsame.sn rfl) he
    rw [hsame.isSent]
    exact (hsent s (List.mem_cons_self ..)).of_sdu hcut.sdu_eq.1
  · refine Sorted.cut (hlist ▸ h.retransmitSorted) h.snInv (h.distinct.subperm ?_)
      (fun t ht => (hsent t ht).sn_ne_none) hcut
    rw [segments, hlist]
    exact (List.sublist_append_right ..).subperm
  · intro t ht
    rcases List.mem_append.mp ht with ht | ht
    · exact h.sent t (List.mem_append_left _ ht)
    · rcases List.mem_append.mp ht with ht | ht
      · exact (hsent s (List.mem_cons_self ..)).of_sdu (hcut.sdu_eq.2 t ht)
      · exact hsent t (List.mem_cons_of_mem _ ht)

/-- Every sequence number in use is between `tx_next_ack` and `tx_next`. -/
theorem OrderInv.modulusTx_lt {sn : ℕ} (h : e.OrderInv) (hs : s ∈ e.segments)
    (hsn : (e.sdus s.sdu).sn = some sn) : e.modulusTx sn < e.modulusTx e.txNext := by
  rw [segments, List.append_assoc] at hs
  rcases List.mem_append.mp hs with hs | hs
  · have hlatest := h.latest s sn hs hsn
    omega
  · obtain ⟨sn', hsn', hlt⟩ := h.sent s hs
    obtain rfl := Option.some.inj (hsn.symm.trans hsn')
    exact hlt

/-- The SDU at the head of the transmit list gets a sequence number. -/
theorem OrderInv.assignSn {rest : List Segment} (h : e.OrderInv)
    (hstall : e.isWindowStalling = false) (hlist : e.txList = s :: rest) :
    (e.assignSn s).OrderInv ∧ (e.assignSn s).IsSent s := by
  have hopen := h.snInv.isWindowStalling_eq_false.mp hstall
  have hqueue := List.pairwise_cons.mp (hlist ▸ h.queue)
  cases hsn : (e.sdus s.sdu).sn with
  | some sn =>
    have hself : e.assignSn s = e := by
      rw [AmEntity.assignSn, hsn]
    have hlatest := h.latest s sn (hlist ▸ List.mem_cons_self ..) hsn
    rw [hself]
    exact ⟨h, sn, hsn, by omega⟩
  | none =>
    have hassign : e.assignSn s = { e.setSdu s.sdu { e.sdus s.sdu with sn := some e.txNext } with
        txNext := e.nextSn e.txNext } := by
      rw [AmEntity.assignSn, hsn]
    have hinv := h.snInv.assignSn s
    rw [hassign] at hinv ⊢
    set e₁ : AmEntity := { e.setSdu s.sdu { e.sdus s.sdu with sn := some e.txNext } with
      txNext := e.nextSn e.txNext }
    have hnext : e.modulusTx e₁.txNext = e.modulusTx e.txNext + 1 := by
      have hwindow := e.cfg.windowSize_lt
      refine Window.offset_succ_mod h.snInv.txNext h.snInv.txNextAck ?_
      change e.modulusTx e.txNext + 1 < e.cfg.snModulus
      omega
    have hself : (e₁.sdus s.sdu).sn = some e.txNext := by
      change (Function.update e.sdus s.sdu _ s.sdu).sn = some e.txNext
      rw [Function.update_self]
    have hother : ∀ t : Segment, t.sdu ≠ s.sdu → e₁.sdus t.sdu = e.sdus t.sdu :=
      fun t ht => Function.update_of_ne ht _ _
    have hplace : ∀ t : Segment, t.sdu ≠ s.sdu → e₁.place t = e.place t := by
      intro t ht
      change toLex (e.modulusTx (e₁.snOf t), t.so) = toLex (e.modulusTx (e.snOf t), t.so)
      rw [snOf, snOf, hother t ht]
    -- the SDU has no segment that was sent
    have hne : ∀ t ∈ e.waitList ++ e.retransmitList, t.sdu ≠ s.sdu := by
      intro t ht heq
      obtain ⟨sn, hsn', -⟩ := h.sent t ht
      rw [heq, hsn] at hsn'
      cases hsn'
    have hsorted : ∀ l : List Segment, (∀ t ∈ l, t.sdu ≠ s.sdu) → e.Sorted l → e₁.Sorted l := by
      intro l hl hsorted
      refine hsorted.imp_of_mem fun hs ht hlt => ?_
      rw [hplace _ (hl _ hs), hplace _ (hl _ ht)]
      exact hlt
    have hunused : ∀ t ∈ e.segments, (e.sdus t.sdu).sn ≠ some e.txNext := by
      intro t ht hsn'
      exact absurd (h.modulusTx_lt ht hsn') (lt_irrefl _)
    refine ⟨⟨hinv, ?_, ?_, ?_, h.waitEnd, ⟨h.distinct.apart, h.distinct.fresh, ?_⟩, ?_, ?_, ?_⟩,
      e.txNext, hself, ?_⟩
    · change e.modulusTx e₁.txNext ≤ e.cfg.windowSize
      omega
    · exact hsorted _ (fun t ht => hne t (List.mem_append_left _ ht)) h.waitSorted
    · exact hsorted _ (fun t ht => hne t (List.mem_append_right _ ht)) h.retransmitSorted
    · intro t u sn ht hu htn hun
      by_cases hts : t.sdu = s.sdu
      · by_cases hus : u.sdu = s.sdu
        · exact hts.trans hus.symm
        · rw [hts, hself] at htn
          rw [hother u hus, ← Option.some.inj htn] at hun
          exact absurd hun (hunused u hu)
      · by_cases hus : u.sdu = s.sdu
        · rw [hus, hself] at hun
          rw [hother t hts, ← Option.some.inj hun] at htn
          exact absurd htn (hunused t ht)
        · rw [hother t hts] at htn
          rw [hother u hus] at hun
          exact h.distinct.unique t u sn ht hu htn hun
    · intro t ht
      obtain ⟨sn, hsn', hlt⟩ := h.sent t ht
      refine ⟨sn, (congrArg Sdu.sn (hother t (hne t ht))).trans hsn', ?_⟩
      change e.modulusTx sn < e.modulusTx e₁.txNext
      omega
    · change e.txList.Pairwise fun s t => s.sdu ≠ t.sdu ∧ (e₁.sdus t.sdu).sn = none
      rw [hlist]
      refine List.pairwise_cons.mpr ⟨fun t ht => ?_, hqueue.2.imp_of_mem fun _ ht htu => ?_⟩
      · rw [hother t (hqueue.1 t ht).1.symm]
        exact hqueue.1 t ht
      · rw [hother _ (hqueue.1 _ ht).1.symm]
        exact htu
    · intro t sn ht htn
      change e.modulusTx sn + 1 = e.modulusTx e₁.txNext
      rcases List.mem_cons.mp (hlist ▸ ht) with rfl | ht
      · obtain rfl := Option.some.inj (hself.symm.trans htn)
        exact hnext.symm
      · rw [hother t (hqueue.1 t ht).1.symm, (hqueue.1 t ht).2] at htn
        cases htn
    · change e.modulusTx e.txNext < e.modulusTx e₁.txNext
      omega

/-- A segment of the transmit list is sent. -/
theorem OrderInv.sendTx {rest : List Segment} {size : ℕ} (h : e.OrderInv)
    (hstall : e.isWindowStalling = false) (hlist : e.txList = s :: rest)
    (hroom : e.computePduHeaderSize s + 1 ≤ size)
    (he : (e.takeTx s rest size).2.putInWaitList (e.takeTx s rest size).1 = some e') :
    e'.OrderInv := by
  have hcut := isCut_cutSegment hroom
  obtain ⟨h₁, hsent⟩ := h.assignSn hstall hlist
  rw [takeTx_eq] at he
  have hlist₁ : (e.assignSn s).txList = s :: rest := by
    rw [← hlist, AmEntity.assignSn]
    split <;> rfl
  set x := (e.cutSegment s size).1
  set left := (e.cutSegment s size).2
  set e₁ := e.assignSn s
  have hmiddle : (s :: (rest ++ e₁.waitList ++ e₁.retransmitList)).Perm e₁.segments := by
    rw [segments, hlist₁]
    rfl
  have hparts : e₁.Distinct (x :: (left ++ rest ++ e₁.waitList ++ e₁.retransmitList)) := by
    refine ((h₁.distinct.perm hmiddle).cut hcut).perm (.cons _ ?_)
    rw [List.append_assoc, List.append_assoc, List.append_assoc]
  have hsame : e₁.SameSns { e₁ with
      sdus := shareSdu e₁.sdus s.sdu left
      txList := left ++ rest
      bstatusTxSize := e.bstatusTxSize - (e.computePduHeaderSize s + s.size : ℕ) +
        e.pduSizes left } := ⟨rfl, rfl, rfl, rfl, sn_shareSdu e₁.sdus s.sdu left⟩
  have hqueue := List.pairwise_cons.mp (hlist₁ ▸ h₁.queue)
  have htaken := h₁.relist hsame h₁.waitSorted h₁.retransmitSorted h₁.waitEnd
    (hparts.subperm (List.sublist_cons_self ..).subperm) h₁.sent ?_ ?_
  · refine htaken.put ?_ (hparts.congr hsame.sn rfl) he
    rw [hsame.isSent]
    exact hsent.of_sdu hcut.sdu_eq.1
  · change (left ++ rest).Pairwise _
    rcases hcut.left_cases with hnil | ⟨y, hleft, hy⟩
    · rw [hnil]
      exact hqueue.2
    · rw [hleft]
      refine List.pairwise_cons.mpr ⟨fun t ht => ?_, hqueue.2⟩
      rw [hy]
      exact hqueue.1 t ht
  · intro t ht _
    rcases List.mem_append.mp ht with ht | ht
    · exact ⟨s, hlist₁ ▸ List.mem_cons_self .., (hcut.sdu_eq.2 t ht).symm⟩
    · exact ⟨t, hlist₁ ▸ List.mem_cons_of_mem _ ht, rfl⟩

theorem OrderInv.sends {size : ℕ} (h : e.OrderInv) (hsends : e.Sends size e') : e'.OrderInv := by
  cases hsends with
  | nothing heq => exact h.of_txLists heq
  | retx s rest e₁ hlist hroom he heq => exact (h.sendRetx hlist hroom he).of_txLists heq
  | tx s rest e₁ hstall hlist hroom he heq => exact (h.sendTx hstall hlist hroom he).of_txLists heq

/-! ### The other operations -/

/-- A segment goes from the wait list to the retransmit list. -/
theorem OrderInv.moveHead {cur : Segment} {rest : List Segment} (h : e.OrderInv)
    (hlist : e.waitList = cur :: rest) : (e.moveHead cur rest).OrderInv := by
  have hperm := perm_listAdd (e := e) cur e.retransmitList
  have hsegments : (e.txList ++ rest ++ e.listAdd cur e.retransmitList).Perm e.segments := by
    rw [segments, hlist]
    refine (hperm.append_left _).trans ?_
    rw [List.perm_iff_count]
    intro x
    simp only [List.count_append, List.count_cons]
    omega
  have hmoved : ∀ s ∈ rest ++ e.listAdd cur e.retransmitList,
      s ∈ e.waitList ++ e.retransmitList := by
    intro s hs
    rw [hlist, List.cons_append, List.mem_cons, List.mem_append]
    rcases List.mem_append.mp hs with hs | hs
    · exact .inr (.inl hs)
    · rcases List.mem_cons.mp (hperm.subset hs) with rfl | hs
      · exact .inl rfl
      · exact .inr (.inr hs)
  have hcur : e.Distinct (cur :: e.retransmitList) := by
    refine h.distinct.subperm ?_
    rw [segments, hlist]
    refine List.Sublist.subperm ?_
    exact ((List.sublist_append_left [cur] rest).trans
      (List.sublist_append_right _ _)).append (.refl _)
  have hwait := hlist ▸ h.waitSorted
  refine h.relist ⟨rfl, rfl, rfl, rfl, fun _ => rfl⟩ (List.pairwise_cons.mp hwait).2 ?_ ?_
    (h.distinct.perm hsegments) (fun s hs => h.sent s (hmoved s hs)) h.queue
    fun t ht _ => ⟨t, ht, rfl⟩
  · refine h.retransmitSorted.listAdd h.snInv fun t ht => hcur.place_ne h.snInv ht ?_ ?_
    · exact (h.sent cur (by simp [hlist])).sn_ne_none
    · exact (h.sent t (List.mem_append_right _ ht)).sn_ne_none
  · change (if rest.isEmpty then none else e.waitEnd.map (· - 1)) = lastPos rest
    rw [h.waitEnd, hlist]
    cases rest with
    | nil => rfl
    | cons t rest => simp [lastPos]

theorem OrderInv.recvSdu {buffer : List UInt8} {sduId : ℕ} (h : e.OrderInv)
    (he : e.recvSdu buffer sduId = some e') : e'.OrderInv := by
  rw [AmEntity.recvSdu] at he
  split_ifs at he
  · cases he
    exact h
  · set s : Segment := ⟨e.sduCount, buffer.length, 0, true, true⟩
    cases he
    set e₁ : AmEntity := { e.setSdu e.sduCount ⟨none, sduId, buffer, -1, 1, 0⟩ with
      sduCount := e.sduCount + 1
      txSize := e.txSize + buffer.length
      txList := e.txList ++ [s]
      bstatusTxSize := e.bstatusTxSize + e.computePduHeaderSize s + s.size }
    have hold : ∀ t ∈ e.segments, e₁.sdus t.sdu = e.sdus t.sdu :=
      fun t ht => Function.update_of_ne (h.distinct.fresh t ht).ne _ _
    have hnew : (e₁.sdus s.sdu).sn = none := by
      change (Function.update e.sdus e.sduCount _ e.sduCount).sn = none
      rw [Function.update_self]
    have hmem : ∀ t ∈ e.waitList ++ e.retransmitList, t ∈ e.segments := by
      intro t ht
      rw [segments, List.append_assoc]
      exact List.mem_append_right _ ht
    have hsorted : ∀ l : List Segment, (∀ t ∈ l, t ∈ e.segments) → e.Sorted l → e₁.Sorted l := by
      intro l hl hsorted
      refine hsorted.imp_of_mem fun {t u} ht hu hlt => ?_
      have hplace : ∀ t ∈ l, e₁.place t = e.place t := by
        intro t ht
        change toLex (e.modulusTx (e₁.snOf t), t.so) = toLex (e.modulusTx (e.snOf t), t.so)
        rw [snOf, snOf, hold t (hl t ht)]
      rw [hplace t ht, hplace u hu]
      exact hlt
    have hperm : e₁.segments.Perm (s :: e.segments) := by
      change (e.txList ++ [s] ++ e.waitList ++ e.retransmitList).Perm _
      rw [segments, List.append_assoc, List.append_assoc, List.append_assoc]
      exact List.perm_middle
    have hdistinct : e₁.Distinct (s :: e.segments) := by
      refine ⟨List.pairwise_cons.mpr ⟨fun t ht heq => ?_, h.distinct.apart⟩, fun t ht => ?_, ?_⟩
      · exact absurd heq.symm (h.distinct.fresh t ht).ne
      · change t.sdu < e.sduCount + 1
        rcases List.mem_cons.mp ht with rfl | ht
        · exact Nat.lt_succ_self _
        · exact Nat.lt_succ_of_lt (h.distinct.fresh t ht)
      · intro t u sn ht hu htn hun
        rcases List.mem_cons.mp ht with rfl | ht
        · cases hnew.symm.trans htn
        · rcases List.mem_cons.mp hu with rfl | hu
          · cases hnew.symm.trans hun
          · rw [hold t ht] at htn
            rw [hold u hu] at hun
            exact h.distinct.unique t u sn ht hu htn hun
    refine ⟨⟨h.snInv.txNext, h.snInv.txNextAck, fun t => ?_⟩, h.window, ?_, ?_, h.waitEnd,
      hdistinct.perm hperm, fun t ht => ?_, ?_, fun t sn ht htn => ?_⟩
    · change (Function.update e.sdus e.sduCount _ t.sdu).sn.getD 0 < e.cfg.snModulus
      by_cases ht : t.sdu = e.sduCount
      · rw [ht, Function.update_self]
        exact e.cfg.snModulus_pos
      · rw [Function.update_of_ne ht]
        exact h.snInv.snOf t
    · exact hsorted _ (fun t ht => hmem t (List.mem_append_left _ ht)) h.waitSorted
    · exact hsorted _ (fun t ht => hmem t (List.mem_append_right _ ht)) h.retransmitSorted
    · obtain ⟨sn, hsn, hlt⟩ := h.sent t ht
      exact ⟨sn, (congrArg Sdu.sn (hold t (hmem t ht))).trans hsn, hlt⟩
    · change (e.txList ++ [s]).Pairwise fun s t => s.sdu ≠ t.sdu ∧ (e₁.sdus t.sdu).sn = none
      have htx : ∀ t ∈ e.txList, t ∈ e.segments := fun t ht => by simp [segments, ht]
      refine List.pairwise_append.mpr ⟨?_, List.pairwise_singleton _ _, ?_⟩
      · refine h.queue.imp_of_mem fun _ ht htu => ?_
        rw [hold _ (htx _ ht)]
        exact htu
      · intro t ht u hu
        rw [List.mem_singleton.mp hu]
        exact ⟨(h.distinct.fresh t (htx t ht)).ne, hnew⟩
    · rcases List.mem_append.mp ht with ht | ht
      · refine h.latest t sn ht ?_
        rw [← hold t (by simp [segments, ht])]
        exact htn
      · rw [List.mem_singleton.mp ht] at htn
        cases hnew.symm.trans htn

/-- An SDU is taken from the transmit list. -/
theorem OrderInv.discardSdu (h : e.OrderInv) (sduId : ℕ) : (e.discardSdu sduId).OrderInv := by
  rw [AmEntity.discardSdu]
  split
  · exact h
  · next s hfind =>
    split_ifs
    · set rest := e.txList.eraseP fun s => (e.sdus s.sdu).upperLayerId == sduId
      have hsub : rest.Sublist e.txList := List.eraseP_sublist
      have hset : e.SameSns (e.setSdu s.sdu
          { e.sdus s.sdu with freeCount := (e.sdus s.sdu).freeCount + 1 }) := .setSdu rfl
      refine h.relist (hset.trans ⟨rfl, rfl, rfl, rfl, fun _ => rfl⟩) h.waitSorted
        h.retransmitSorted h.waitEnd (h.distinct.subperm ?_) h.sent (h.queue.sublist hsub)
        fun t ht _ => ⟨t, hsub.subset ht, rfl⟩
      exact ((hsub.append (.refl _)).append (.refl _)).subperm
    · exact h

/-- `retx_count` does not matter. -/
theorem OrderInv.setRetxCount (h : e.OrderInv) (i : ℕ) (retxCount : ℤ) :
    (e.setSdu i { e.sdus i with retxCount }).OrderInv :=
  h.relist (.setSdu rfl) h.waitSorted h.retransmitSorted h.waitEnd h.distinct h.sent h.queue
    fun t ht _ => ⟨t, ht, rfl⟩

end AmEntity

/-! ### Status PDUs -/

namespace Scan

variable {c c' : Scan} {e : AmEntity} {e₀ : AmEntity} {n : Nack} {ackSn : ℕ} {s : Segment}
  {rest : List Segment}

/-- The lists are in order during the walk. -/
structure Ordered (e₀ : AmEntity) (c : Scan) : Prop where
  same : e₀.SameSns c.e
  txList : c.e.txList = e₀.txList
  wait : e₀.Sorted (c.keptWait ++ c.curWait)
  retx : e₀.Sorted (c.newRetx ++ c.curRetx)
  /-- What was put in the new retransmit list is in front of what still waits. -/
  passed (s t : Segment) : s ∈ c.newRetx → t ∈ c.curWait → e₀.place s < e₀.place t
  apart (s t : Segment) : s ∈ c.curRetx → t ∈ c.curWait → e₀.place s ≠ e₀.place t
  waitEnd : c.waitEnd = AmEntity.lastPos (c.keptWait ++ c.curWait)
  subperm : (c.keptWait ++ c.curWait ++ (c.newRetx ++ c.curRetx)).Subperm
    (e₀.waitList ++ e₀.retransmitList)

theorem endAfter_eq (hend : c.waitEnd = AmEntity.lastPos (c.keptWait ++ s :: rest)) :
    c.endAfter = AmEntity.lastPos (c.keptWait ++ rest) := by
  have hlength : (c.keptWait ++ s :: rest).length = c.keptWait.length + rest.length + 1 := by
    simp [Nat.add_assoc]
  rw [endAfter, hend, AmEntity.lastPos_of_length hlength]
  dsimp only
  cases rest with
  | nil =>
    rw [List.length_nil, Nat.add_zero, if_pos rfl, List.append_nil]
    cases hkept : c.keptWait with
    | nil => rfl
    | cons t kept => rfl
  | cons t rest =>
    have hrest : (c.keptWait ++ t :: rest).length = c.keptWait.length + rest.length + 1 := by
      simp [Nat.add_assoc]
    rw [AmEntity.lastPos_of_length hrest, List.length_cons, if_neg (by omega), if_pos (by omega)]
    rfl

namespace Ordered

/-- The first segment of the wait list is taken out. -/
theorem takeWait (h : Ordered e₀ c) (hcur : c.curWait = s :: rest) (hsame : c.e.SameSns e)
    (htx : e.txList = c.e.txList) :
    Ordered e₀ { c with e, curWait := rest, waitEnd := c.endAfter } := by
  have hsub : (c.keptWait ++ rest).Sublist (c.keptWait ++ c.curWait) := by
    rw [hcur]
    exact (List.sublist_cons_self ..).append_left _
  have hmem : ∀ t ∈ rest, t ∈ c.curWait := fun t ht => hcur ▸ List.mem_cons_of_mem _ ht
  refine ⟨h.same.trans hsame, htx.trans h.txList, h.wait.sublist hsub, h.retx, ?_, ?_, ?_, ?_⟩
  · exact fun x t hx ht => h.passed x t hx (hmem t ht)
  · exact fun x t hx ht => h.apart x t hx (hmem t ht)
  · exact endAfter_eq (hcur ▸ h.waitEnd)
  · exact (hsub.append_right _).subperm.trans h.subperm

/-- The first segment of the wait list goes to the retransmit list. -/
theorem nackWait (h : Ordered e₀ c) (hcur : c.curWait = s :: rest) (hsame : c.e.SameSns e)
    (htx : e.txList = c.e.txList) (hfirst : ∀ r ∈ c.curRetx.head?, e₀.place s < e₀.place r) :
    Ordered e₀ { c with
      e, curWait := rest, waitEnd := c.endAfter, newRetx := c.newRetx ++ [s] } := by
  have htaken := h.takeWait hcur hsame htx
  have hs : s ∈ c.curWait := hcur ▸ List.mem_cons_self ..
  have hwait : e₀.Sorted (s :: rest) := hcur ▸ (List.pairwise_append.mp h.wait).2.1
  obtain ⟨hnew, hretx, hcross⟩ := List.pairwise_append.mp h.retx
  have hfront : ∀ r ∈ c.curRetx, e₀.place s < e₀.place r := by
    intro r hr
    cases hlist : c.curRetx with
    | nil => simp [hlist] at hr
    | cons r' rest' =>
      have hr' : e₀.place s < e₀.place r' := hfirst r' (by rw [hlist]; rfl)
      rw [hlist] at hr hretx
      rcases List.mem_cons.mp hr with rfl | hr
      · exact hr'
      · exact hr'.trans ((List.pairwise_cons.mp hretx).1 r hr)
  refine ⟨htaken.same, htaken.txList, htaken.wait, ?_, ?_, htaken.apart, htaken.waitEnd, ?_⟩
  · refine List.pairwise_append.mpr ⟨List.pairwise_append.mpr
      ⟨hnew, List.pairwise_singleton _ _, ?_⟩, hretx, ?_⟩
    · intro x hx y hy
      rw [List.mem_singleton.mp hy]
      exact h.passed x s hx hs
    · intro x hx r hr
      rcases List.mem_append.mp hx with hx | hx
      · exact hcross x hx r hr
      · rw [List.mem_singleton.mp hx]
        exact hfront r hr
  · intro x t hx ht
    rcases List.mem_append.mp hx with hx | hx
    · exact htaken.passed x t hx ht
    · rw [List.mem_singleton.mp hx]
      exact (List.pairwise_cons.mp hwait).1 t ht
  · refine List.Subperm.trans (List.Perm.subperm ?_) h.subperm
    rw [hcur, List.perm_iff_count]
    intro x
    simp only [List.count_append, List.count_cons, List.count_nil]
    omega

theorem keepWait {l l' : List Segment} (h : Ordered e₀ c) (hcur : c.curWait = l ++ l') :
    Ordered e₀ { c with keptWait := c.keptWait ++ l, curWait := l' } := by
  have hlist : c.keptWait ++ l ++ l' = c.keptWait ++ c.curWait := by
    rw [hcur, List.append_assoc]
  have hmem : ∀ t ∈ l', t ∈ c.curWait := fun t ht => hcur ▸ List.mem_append_right _ ht
  refine ⟨h.same, h.txList, ?_, h.retx, fun x t hx ht => h.passed x t hx (hmem t ht),
    fun x t hx ht => h.apart x t hx (hmem t ht), ?_, ?_⟩
  · exact hlist ▸ h.wait
  · exact hlist ▸ h.waitEnd
  · change (c.keptWait ++ l ++ l' ++ (c.newRetx ++ c.curRetx)).Subperm _
    rw [hlist]
    exact h.subperm

/-- The first segments of the retransmit list are taken out. -/
theorem takeRetx (h : Ordered e₀ c) (hrest : rest.Sublist c.curRetx) (hsame : c.e.SameSns e)
    (htx : e.txList = c.e.txList) : Ordered e₀ { c with e, curRetx := rest } := by
  refine ⟨h.same.trans hsame, htx.trans h.txList, h.wait, h.retx.sublist (hrest.append_left _),
    h.passed, fun x t hx ht => h.apart x t (hrest.subset hx) ht, h.waitEnd, ?_⟩
  exact ((hrest.append_left _).append_left _).subperm.trans h.subperm

/-- The first segment of the retransmit list stays there. -/
theorem keepRetx (h : Ordered e₀ c) (hcur : c.curRetx = s :: rest)
    (hfirst : ∀ w ∈ c.curWait.head?, e₀.place s ≤ e₀.place w) :
    Ordered e₀ { c with newRetx := c.newRetx ++ [s], curRetx := rest } := by
  have hlist : c.newRetx ++ [s] ++ rest = c.newRetx ++ c.curRetx := by
    rw [hcur, List.append_assoc, List.singleton_append]
  have hs : s ∈ c.curRetx := hcur ▸ List.mem_cons_self ..
  have hwait := (List.pairwise_append.mp h.wait).2.1
  have hfront : ∀ w ∈ c.curWait, e₀.place s < e₀.place w := by
    intro w hw
    refine lt_of_le_of_ne ?_ (h.apart s w hs hw)
    cases hcurWait : c.curWait with
    | nil => simp [hcurWait] at hw
    | cons w' rest' =>
      have hw' : e₀.place s ≤ e₀.place w' := hfirst w' (by rw [hcurWait]; rfl)
      rw [hcurWait] at hw hwait
      rcases List.mem_cons.mp hw with rfl | hw
      · exact hw'
      · exact hw'.trans ((List.pairwise_cons.mp hwait).1 w hw).le
  refine ⟨h.same, h.txList, h.wait, ?_, ?_, fun x t hx ht => ?_, h.waitEnd, ?_⟩
  · exact hlist ▸ h.retx
  · intro x t hx ht
    rcases List.mem_append.mp hx with hx | hx
    · exact h.passed x t hx ht
    · rw [List.mem_singleton.mp hx]
      exact hfront t ht
  · exact h.apart x t (hcur ▸ List.mem_cons_of_mem _ hx) ht
  · change (c.keptWait ++ c.curWait ++ (c.newRetx ++ [s] ++ rest)).Subperm _
    rw [hlist]
    exact h.subperm

theorem waitHead (h : Ordered e₀ c) (hcur : c.curWait = s :: rest)
    (hfirst : ∀ r ∈ c.curRetx.head?, e₀.place s < e₀.place r) :
    Ordered e₀ (c.waitHead n ackSn s rest).scan := by
  rw [Scan.waitHead]
  split_ifs
  · exact h.nackWait hcur .nackSegment AmEntity.agrees_nackSegment.txList hfirst
  · exact h
  · exact h.takeWait hcur .ackSegment AmEntity.agrees_ackSegment.txList
  · exact h.keepWait (List.append_nil _).symm
  · exact h.keepWait hcur

theorem retxHead (h : Ordered e₀ c) (hcur : c.curRetx = s :: rest)
    (hfirst : ∀ w ∈ c.curWait.head?, e₀.place s ≤ e₀.place w) :
    Ordered e₀ (c.retxHead n ackSn s rest).scan := by
  have hrest : rest.Sublist c.curRetx := hcur ▸ List.sublist_cons_self ..
  rw [Scan.retxHead]
  split_ifs
  · exact h.keepRetx hcur hfirst
  · exact h
  · exact h.takeRetx hrest .ackRetxSegment AmEntity.agrees_ackRetxSegment.txList
  · exact h.takeRetx (List.nil_sublist _) ⟨rfl, rfl, rfl, rfl, fun _ => rfl⟩ rfl
  · exact h.keepRetx hcur hfirst

/-- A round keeps the order. -/
theorem step {next : Next} (h : Ordered e₀ c) (hnext : c.step n ackSn = next) :
    Ordered e₀ next.scan := by
  rw [← hnext]
  refine step_cases (P := fun next => Ordered e₀ next.scan) (fun _ _ => h) ?_ ?_
  · intro s rest hcur hfirst
    rw [h.same.place] at hfirst
    exact h.waitHead hcur hfirst
  · intro s rest hcur hfirst
    rw [h.same.place] at hfirst
    exact h.retxHead hcur hfirst

theorem stopPoll {r : NackRange} (h : Ordered e₀ c) :
    Ordered e₀ { c with e := Scan.stopPoll r c.e } := by
  have hsame : c.e.SameSns (Scan.stopPoll r c.e) := by
    rw [Scan.stopPoll]
    split_ifs <;> exact ⟨rfl, rfl, rfl, rfl, fun _ => rfl⟩
  refine ⟨h.same.trans hsame, ?_, h.wait, h.retx, h.passed, h.apart, h.waitEnd, h.subperm⟩
  exact AmEntity.agrees_stopPoll.txList.trans h.txList

theorem ackWait {l : List Segment} (h : Ordered e₀ c) (hl : c.curWait = l) :
    Ordered e₀ (c.ackWait ackSn l) := by
  induction l generalizing c with
  | nil => exact h
  | cons s rest ih =>
    rw [Scan.ackWait]
    split_ifs
    · exact ih (h.takeWait hl .ackSegment AmEntity.agrees_ackSegment.txList) rfl
    · exact h

theorem ackRetx {l : List Segment} (h : Ordered e₀ c) (hl : c.curRetx = l) :
    Ordered e₀ (c.ackRetx ackSn l) := by
  induction l generalizing c with
  | nil => exact h
  | cons s rest ih =>
    rw [Scan.ackRetx]
    split_ifs
    · refine ih (h.takeRetx ?_ .ackRetxSegment AmEntity.agrees_ackRetxSegment.txList) rfl
      exact hl ▸ List.sublist_cons_self ..
    · exact h

/-- All NACKs of a status PDU. -/
theorem walk {nacks : List NackRange} (he : e₀.Agrees c.e) (h : Ordered e₀ c) :
    Ordered e₀ (nacks.foldl (processRange ackSn) c) := by
  have rule : WalkRule e₀ ackSn (fun _ => True) (fun _ => Ordered e₀) (Ordered e₀) :=
    { next := fun _ _ hc h => h.step hc
      done := fun _ _ hc h => h.step hc
      exhausted := fun _ _ hc h => h.step hc
      ended := id
      poll := .stopPoll }
  exact rule.walk (fun _ _ => trivial) he h

end Ordered

end Scan

namespace AmEntity

variable {e e' : AmEntity} {c : ControlPdu} {s : Segment} {l : List Segment}

theorem Sorted.inOrder (h : e.Sorted l) (hs : s ∈ l) : e.InOrder l s := by
  obtain ⟨l₁, l₂, rfl⟩ := List.append_of_mem hs
  refine ⟨l₁, l₂, rfl, fun w hw => ?_⟩
  exact ((List.pairwise_append.mp h).2.2 w hw s (List.mem_cons_self ..)).le

theorem Sorted.head_le {a : ℕ} (h : e.Sorted l)
    (hhead : ∀ s ∈ l.head?, a ≤ e.modulusTx (e.snOf s)) (hs : s ∈ l) :
    a ≤ e.modulusTx (e.snOf s) := by
  cases l with
  | nil => cases hs
  | cons w l =>
    have hw := hhead w rfl
    rcases List.mem_cons.mp hs with rfl | hs
    · exact hw
    · exact hw.trans (modulusTx_le_of_place_le ((List.pairwise_cons.mp h).1 s hs).le)

/-- The lists after the walk are in order. -/
theorem OrderInv.finish {w : Scan} (h : e.OrderInv) (hw : w.Ordered e) : w.finish.OrderInv := by
  have hsame : e.SameSns w.finish := hw.same.trans ⟨rfl, rfl, rfl, rfl, fun _ => rfl⟩
  have hsub : w.finish.segments.Subperm e.segments := by
    rw [segments, segments, List.append_assoc, List.append_assoc]
    change (w.e.txList ++ (w.keptWait ++ w.curWait ++ (w.newRetx ++ w.curRetx))).Subperm _
    rw [hw.txList]
    exact (List.subperm_append_left _).mpr hw.subperm
  refine h.relist hsame hw.wait hw.retx hw.waitEnd (h.distinct.subperm hsub) ?_ ?_ ?_
  · exact fun s hs => h.sent s (hw.subperm.subset hs)
  · exact hw.txList ▸ h.queue
  · exact fun s hs _ => ⟨s, hw.txList ▸ hs, rfl⟩

/-- The walk starts with the lists of the entity. -/
theorem OrderInv.start {ackSn : ℕ} (h : e.OrderInv) : (Scan.start
    (if e.modulusTx e.pollSn < e.modulusTx ackSn then
      { e with tPollRetransmitStart := 0 } else e)).Ordered e := by
  have hapart : ∀ s t, s ∈ e.retransmitList → t ∈ e.waitList → e.place s ≠ e.place t := by
    intro s t hs ht
    have hdistinct : e.Distinct (s :: e.waitList) := by
      refine h.distinct.subperm ?_
      refine (List.perm_append_singleton s e.waitList).symm.subperm.trans ?_
      rw [segments]
      exact ((List.sublist_append_right _ _).append (List.singleton_sublist.mpr hs)).subperm
    exact hdistinct.place_ne h.snInv ht (h.sent s (List.mem_append_right _ hs)).sn_ne_none
      (h.sent t (List.mem_append_left _ ht)).sn_ne_none
  split_ifs
  · exact ⟨⟨rfl, rfl, rfl, rfl, fun _ => rfl⟩, rfl, h.waitSorted, h.retransmitSorted,
      fun s t hs => absurd hs List.not_mem_nil, hapart, h.waitEnd, .refl _⟩
  · exact ⟨⟨rfl, rfl, rfl, rfl, fun _ => rfl⟩, rfl, h.waitSorted, h.retransmitSorted,
      fun s t hs => absurd hs List.not_mem_nil, hapart, h.waitEnd, .refl _⟩

theorem modulusTx_minSn_le_of_mem {sn sn' : ℕ} {o : Option ℕ} (h : sn' ∈ o) :
    e.modulusTx (e.minSn sn o) ≤ e.modulusTx sn' := by
  obtain rfl := Option.mem_def.mp h
  rw [minSn]
  split_ifs with hlt
  · exact le_rfl
  · exact Nat.not_lt.mp hlt

/-- The new `tx_next_ack` is not behind the first segments of the lists, nor behind `ACK_SN`. -/
theorem modulusTx_updateTxNextAck_le (ackSn : ℕ) :
    (∀ w ∈ e.waitList.head?,
      e.modulusTx (e.updateTxNextAck ackSn).txNextAck ≤ e.modulusTx (e.snOf w)) ∧
    (∀ r ∈ e.retransmitList.head?,
      e.modulusTx (e.updateTxNextAck ackSn).txNextAck ≤ e.modulusTx (e.snOf r)) ∧
    e.modulusTx (e.updateTxNextAck ackSn).txNextAck ≤ e.modulusTx ackSn := by
  set sn₁ := e.minSn e.txNext (e.waitList.head?.map e.snOf)
  set sn₂ := e.minSn sn₁ (e.retransmitList.head?.map e.snOf)
  have h₂ : e.modulusTx sn₂ ≤ e.modulusTx sn₁ := modulusTx_minSn_le _ _
  have h₃ : e.modulusTx (e.updateTxNextAck ackSn).txNextAck ≤ e.modulusTx sn₂ :=
    modulusTx_minSn_le sn₂ (some ackSn)
  refine ⟨fun w hw => h₃.trans (h₂.trans ?_), fun r hr => h₃.trans ?_,
    modulusTx_minSn_le_of_mem rfl⟩
  · exact modulusTx_minSn_le_of_mem (Option.mem_map_of_mem e.snOf hw)
  · exact modulusTx_minSn_le_of_mem (Option.mem_map_of_mem e.snOf hr)

/-- `tx_next_ack` moves forward, and not past an SDU that was sent in part. -/
theorem OrderInv.updateTxNextAck {ackSn : ℕ} (h : e.OrderInv) (hack : ackSn < e.cfg.snModulus)
    (hkept : (∃ s ∈ e.txList, (e.sdus s.sdu).sn ≠ none) →
      e.modulusTx (e.updateTxNextAck ackSn).txNextAck < e.modulusTx e.txNext) :
    (e.updateTxNextAck ackSn).OrderInv := by
  obtain ⟨hcases, hle⟩ := txNextAck_updateTxNextAck (e := e) ackSn
  obtain ⟨hwait, hretx, -⟩ := modulusTx_updateTxNextAck_le (e := e) ackSn
  have hbase : (e.updateTxNextAck ackSn).txNextAck < e.cfg.snModulus := by
    rcases hcases with heq | ⟨w, -, heq⟩ | ⟨r, -, heq⟩ | heq
    · rw [heq]
      exact h.snInv.txNext
    · rw [heq]
      exact h.snInv.snOf w
    · rw [heq]
      exact h.snInv.snOf r
    · rw [heq]
      exact hack
  set e₁ := e.updateTxNextAck ackSn
  set d := e.modulusTx e₁.txNextAck
  have hrebase : ∀ a, a < e.cfg.snModulus → d ≤ e.modulusTx a →
      e₁.modulusTx a = e.modulusTx a - d :=
    fun a ha hd => Window.offset_rebase ha hbase h.snInv.txNextAck hd
  have hnext : e₁.modulusTx e.txNext = e.modulusTx e.txNext - d := hrebase _ h.snInv.txNext hle
  -- all places move by the same amount
  have hsorted : ∀ l : List Segment, e.Sorted l → (∀ s ∈ l, d ≤ e.modulusTx (e.snOf s)) →
      e₁.Sorted l := by
    intro l hl hd
    refine hl.imp_of_mem fun {s t} hs ht hlt => ?_
    have hds := hd s hs
    have hdt := hd t ht
    have hss : e₁.modulusTx (e₁.snOf s) = e.modulusTx (e.snOf s) - d :=
      hrebase _ (h.snInv.snOf s) hds
    have htt : e₁.modulusTx (e₁.snOf t) = e.modulusTx (e.snOf t) - d :=
      hrebase _ (h.snInv.snOf t) hdt
    rw [place_lt_place] at hlt ⊢
    rw [hss, htt]
    omega
  have hwait' : ∀ s ∈ e.waitList, d ≤ e.modulusTx (e.snOf s) :=
    fun s hs => h.waitSorted.head_le hwait hs
  have hretx' : ∀ s ∈ e.retransmitList, d ≤ e.modulusTx (e.snOf s) :=
    fun s hs => h.retransmitSorted.head_le hretx hs
  refine ⟨⟨h.snInv.txNext, hbase, h.snInv.snOf⟩, ?_, hsorted _ h.waitSorted hwait',
    hsorted _ h.retransmitSorted hretx', h.waitEnd, h.distinct.congr (fun _ => rfl) rfl,
    fun s hs => ?_, h.queue, fun s sn hs hsn => ?_⟩
  · have hwindow := h.window
    change e₁.modulusTx e.txNext ≤ e.cfg.windowSize
    omega
  · obtain ⟨sn, hsn, hlt⟩ := h.sent s hs
    have hsnOf : e.snOf s = sn := by
      rw [snOf, hsn, Option.getD_some]
    have hd : d ≤ e.modulusTx (e.snOf s) := (List.mem_append.mp hs).elim (hwait' s) (hretx' s)
    have hsn' := hrebase _ (h.snInv.snOf s) hd
    rw [hsnOf] at hd hsn'
    refine ⟨sn, hsn, ?_⟩
    change e₁.modulusTx sn < e₁.modulusTx e.txNext
    omega
  · have hlatest := h.latest s sn hs hsn
    have hlt := hkept ⟨s, hs, fun hnone => by cases hsn.symm.trans hnone⟩
    have hsnOf : e.snOf s = sn := by
      rw [snOf, show (e.sdus s.sdu).sn = some sn from hsn, Option.getD_some]
    have hsn' := hrebase sn (hsnOf ▸ h.snInv.snOf s) (by omega)
    change e₁.modulusTx sn + 1 = e₁.modulusTx e.txNext
    omega

/-- A status PDU acknowledges everything that was sent, up to `tx_next`, while an SDU with a
sequence number is still to be sent in part. -/
def Premature (e : AmEntity) (c : ControlPdu) : Prop :=
  (∃ s ∈ e.txList, (e.sdus s.sdu).sn ≠ none) ∧ c.ackSn = e.txNext ∧
    ∀ s ∈ e.waitList ++ e.retransmitList, ¬ e.nacked (e.nacksOf c) s

/-- A status PDU that is not premature keeps the order. -/
theorem OrderInv.applyControlPdu (h : e.OrderInv) (hvalid : e.validControlPdu c = true)
    (hack : c.ackSn < e.cfg.snModulus) (hkept : ¬ e.Premature c) :
    (e.applyControlPdu c).OrderInv := by
  obtain ⟨e', hafter, happly⟩ := exists_afterWalk e c
  have hwalk : (e.statusWalk c).Ordered e := Scan.Ordered.walk agrees_ackPoll h.start
  set v := (e.statusWalk c).ackWait c.ackSn (e.statusWalk c).curWait
  set w := v.ackRetx c.ackSn v.curRetx
  have hacked : v.Ordered e := hwalk.ackWait rfl
  have hordered : w.Ordered e := hacked.ackRetx rfl
  have heq : e.applyControlPdu c = w.finish.updateTxNextAck c.ackSn := rfl
  have hwait : w.keptWait ++ w.curWait = e'.waitList := by
    have hlists := congrArg AmEntity.waitList (heq.symm.trans happly)
    exact hlists
  have hretx : w.newRetx ++ w.curRetx = e'.retransmitList := by
    have hlists := congrArg AmEntity.retransmitList (heq.symm.trans happly)
    exact hlists
  have hfinish := h.finish hordered
  have hsame : e.SameSns w.finish := hordered.same.trans ⟨rfl, rfl, rfl, rfl, fun _ => rfl⟩
  obtain ⟨hwaitLe, hretxLe, hackLe⟩ := modulusTx_updateTxNextAck_le (e := w.finish) c.ackSn
  rw [heq]
  refine hfinish.updateTxNextAck (by rw [hsame.cfg]; exact hack) ?_
  rintro ⟨s, hs, hsn⟩
  have hs' : s ∈ e.txList := hordered.txList ▸ hs
  rw [hsame.sn] at hsn
  rw [hsame.modulusTx, hsame.snOf] at hwaitLe hretxLe
  rw [hsame.modulusTx] at hackLe
  rw [hsame.modulusTx, hsame.txNext]
  by_cases hnext : c.ackSn = e.txNext
  · -- something that is reported stays
    obtain ⟨t, ht, hnacked⟩ : ∃ t ∈ e.waitList ++ e.retransmitList, e.nacked (e.nacksOf c) t := by
      by_contra hnone
      push Not at hnone
      exact hkept ⟨⟨s, hs', hsn⟩, hnext, hnone⟩
    obtain ⟨sn, hsn', hlt⟩ := h.sent t ht
    have hsnOf : e.snOf t = sn := by
      rw [snOf, hsn', Option.getD_some]
    rw [← hsnOf] at hlt
    have horder := (List.mem_append.mp ht).imp h.waitSorted.inOrder h.retransmitSorted.inOrder
    have hstays := hafter.mem_waitList_or_retransmitList h.snInv
      (.inr ⟨hnext ▸ hlt, hnacked, horder⟩)
    refine lt_of_le_of_lt ?_ hlt
    rcases hstays with hstays | hstays
    · exact hordered.wait.head_le hwaitLe (hwait ▸ hstays)
    · exact hordered.retx.head_le hretxLe (hretx ▸ hstays)
  · refine lt_of_le_of_lt hackLe (lt_of_le_of_ne (validControlPdu_iff.mp hvalid).1 fun hmod => ?_)
    exact hnext (h.snInv.modulusTx_inj hack h.snInv.txNext hmod)

/-- An operation does not process a premature status PDU. -/
def NotPremature (e : AmEntity) : AmOp → Prop
  | .recvPdu buffer => ∀ c, e.acceptedStatus buffer = some c → ¬ e.Premature c
  | _ => True

theorem orderInv_new (cfg : AmConfig) : (new cfg).OrderInv := by
  refine ⟨?_, ?_, .nil, .nil, rfl, ⟨.nil, ?_, ?_⟩, ?_, .nil, ?_⟩
  · exact (pollInv_new cfg).snInv
  · change Window.offset cfg.snModulus 0 0 ≤ cfg.windowSize
    rw [Window.offset_self]
    exact Nat.zero_le _
  · exact fun s hs => absurd hs List.not_mem_nil
  · exact fun s t sn hs => absurd hs List.not_mem_nil
  · exact fun s hs => absurd hs List.not_mem_nil
  · exact fun s sn hs => absurd hs List.not_mem_nil

/-- Every operation keeps the invariant, unless a status PDU is premature. -/
theorem OrderInv.op {op : AmOp} {fuel : ℕ} (h : e.OrderInv) (hkept : e.NotPremature op)
    (he : e.op fuel op = some e') : e'.OrderInv := by
  cases op with
  | recvSdu buffer sduId => exact h.recvSdu he
  | generatePdu size =>
    obtain ⟨⟨pdu, e₁⟩, hpdu, rfl⟩ := Option.map_eq_some_iff.mp he
    refine generatePdu_invariant ?_ ?_ h hpdu
    · exact fun e e' heq h => h.of_txLists heq
    · exact fun e e' hsends h => h.sends hsends
  | recvPdu buffer =>
    rcases recvPdu_cases he with hside | ⟨c, hc, hack, rfl⟩
    · exact h.of_txLists (txLists_of_txSide hside)
    · have hvalid := (Option.filter_eq_some_iff.mp (acceptedStatus_eq.symm.trans hc)).2
      exact h.applyControlPdu hvalid hack (hkept c hc)
  | setTime now =>
    refine setTime_invariant ?_ ?_ ?_ h he
    · exact fun e e' heq h => h.of_txLists heq
    · exact fun e i retxCount h => h.setRetxCount i retxCount
    · exact fun e cur rest hlist h => h.moveHead hlist
  | discardSdu sduId =>
    cases he
    exact h.discardSdu sduId

/-- The invariant of the lists: the wait list and the retransmit list are sorted, the sequence
numbers in them are between `tx_next_ack` and `tx_next`, `wait_end` is the end of the wait list, and
segments of an SDU have no byte in common. -/
structure RepInv (e : AmEntity) : Prop where
  waitSorted : e.Sorted e.waitList
  retransmitSorted : e.Sorted e.retransmitList
  sent (s : Segment) : s ∈ e.waitList ++ e.retransmitList → e.IsSent s
  waitEnd : e.waitEnd = lastPos e.waitList
  disjoint : e.segments.Pairwise fun s t => s.sdu = t.sdu →
    Disjoint (Finset.Ico s.so (s.so + s.size)) (Finset.Ico t.so (t.so + t.size))

theorem OrderInv.repInv (h : e.OrderInv) : e.RepInv := by
  refine ⟨h.waitSorted, h.retransmitSorted, h.sent, h.waitEnd, ?_⟩
  refine h.distinct.apart.imp fun {s t} hapart heq => Finset.disjoint_left.mpr fun b hs ht => ?_
  rw [Finset.mem_Ico] at hs ht
  have := hapart heq
  omega

end AmEntity

/-! ### Runs -/

/-- A run in which no status PDU is premature. -/
abbrev TimelyRun (cfg : AmConfig) (ops : List AmOp) (e : AmEntity) : Prop :=
  Run.Reach (fun op e e' => e.NotPremature op ∧ ∃ fuel, e.op fuel op = some e')
    (· = AmEntity.new cfg) ops e

/-- The operations of such a run keep the invariant. -/
theorem orderInv_of_run {cfg : AmConfig} {ops : List AmOp} {e : AmEntity}
    (h : TimelyRun cfg ops e) : e.OrderInv := by
  refine h.invariant (I := AmEntity.OrderInv) ?_ ?_
  · rintro e rfl
    exact AmEntity.orderInv_new cfg
  · rintro op e e' hinv ⟨hkept, fuel, he⟩
    exact hinv.op hkept he

/-- The lists are in order in every state of such a run. -/
theorem repInv_of_run {cfg : AmConfig} {ops : List AmOp} {e : AmEntity}
    (h : TimelyRun cfg ops e) : e.RepInv := (orderInv_of_run h).repInv

/-- The SDU that was sent in part is reported as missing. -/
theorem repInv_after_nack : ∃ e, TimelyRun exampleCfg
    [.recvSdu [0, 1, 2, 3, 4, 5, 6, 7, 8, 9] 0, .generatePdu 6, .recvPdu [0, 1, 128, 0, 0]] e ∧
    e.RepInv := by
  obtain ⟨e₁, he₁, ⟨hc, s, hs, hhit⟩, e₂, he₂⟩ :
      ∃ e₁, [.recvSdu [0, 1, 2, 3, 4, 5, 6, 7, 8, 9] 0, .generatePdu 6].foldlM
          (AmEntity.op 1) (.new exampleCfg) = some e₁ ∧
        (e₁.acceptedStatus [0, 1, 128, 0, 0] = some ⟨1, [⟨0, 0, -1, 1⟩]⟩ ∧
          ∃ s ∈ e₁.waitList, e₁.snOf s = 0 ∧ (⟨0, 0, -1⟩ : Nack).overlaps s = true) ∧
        ∃ e₂, e₁.op 1 (.recvPdu [0, 1, 128, 0, 0]) = some e₂ := by
    refine ⟨_, rfl, ?_, _, rfl⟩
    decide +kernel
  have hnew : TimelyRun exampleCfg [] (.new exampleCfg) := .start rfl
  have hrun : TimelyRun exampleCfg
      [.recvSdu [0, 1, 2, 3, 4, 5, 6, 7, 8, 9] 0, .generatePdu 6] e₁ := by
    refine hnew.append_foldlM ?_ he₁
    intro op hop e e' h
    simp only [List.mem_cons, List.not_mem_nil, or_false] at hop
    rcases hop with rfl | rfl <;> exact ⟨trivial, 1, h⟩
  have hkept : e₁.NotPremature (.recvPdu [0, 1, 128, 0, 0]) := by
    intro c hc' hpremature
    obtain rfl := Option.some.inj (hc.symm.trans hc')
    exact hpremature.2.2 s (List.mem_append_left _ hs) (.inl hhit)
  exact ⟨e₂, hrun.step ⟨hkept, 1, he₂⟩, repInv_of_run (hrun.step ⟨hkept, 1, he₂⟩)⟩

/-- The invariant of the lists holds in every state of every run. -/
def RepInvKept : Prop := ∀ cfg ops e, AmRun cfg ops e → e.RepInv

/-- The first bytes of an SDU are sent and acknowledged, with an `ACK_SN` behind the SDU. Then the
rest is sent. -/
def prematureOps : List AmOp :=
  [.recvSdu [0, 1, 2, 3, 4, 5, 6, 7, 8, 9] 0, .generatePdu 6, .recvPdu [0, 1, 0], .generatePdu 100]

/-- The rest waits with a sequence number before `tx_next_ack`. -/
theorem not_repInvKept : ¬ RepInvKept := by
  intro hkept
  obtain ⟨e, he, s, hs, hsn, hout⟩ : ∃ e, prematureOps.foldlM (AmEntity.op 1) (.new exampleCfg) =
      some e ∧ ∃ s ∈ e.waitList, (e.sdus s.sdu).sn = some 0 ∧
        ¬ e.modulusTx 0 < e.modulusTx e.txNext := by
    refine ⟨_, rfl, ?_⟩
    decide +kernel
  have hnew : AmRun exampleCfg [] (.new exampleCfg) := .start rfl
  have hrun : AmRun exampleCfg prematureOps e :=
    hnew.append_foldlM (fun _ _ _ _ h => ⟨1, h⟩) he
  obtain ⟨sn, hsn', hlt⟩ := (hkept _ _ _ hrun).sent s (List.mem_append_left _ hs)
  obtain rfl := Option.some.inj (hsn.symm.trans hsn')
  exact hout hlt

end LlmHric.Rlc
