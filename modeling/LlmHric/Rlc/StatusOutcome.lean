import LlmHric.Rlc.TransmitOrder

/-! A status PDU whose NACKs are in order and before `ACK_SN` sorts the segments that were sent into
three parts: those that a NACK reports are to be sent again, the others before `ACK_SN` are freed,
and those from `ACK_SN` on stay where they are. The walk decides this with the heads of two lists
and one NACK at a time. A segment that it frees is not reported by a NACK that is still to come,
because the NACKs are in order, nor by one that it has passed, because the lists are. -/

namespace LlmHric.Rlc

namespace AmEntity

/-- A NACK comes in front of another one: it ends before that one starts, and it starts before it,
too. -/
def Precedes (e : AmEntity) (m n : Nack) : Prop :=
  e.Follows m n ∧ (e.modulusTx m.sn = e.modulusTx n.sn → m.soStart < n.soStart)

instance (e : AmEntity) (m n : Nack) : Decidable (e.Precedes m n) :=
  inferInstanceAs (Decidable (_ ∧ _))

def Reported (e : AmEntity) (c : ControlPdu) (s : Segment) : Prop := ∃ n ∈ e.nacksOf c, e.hits n s

instance (e : AmEntity) (c : ControlPdu) (s : Segment) : Decidable (e.Reported c s) :=
  inferInstanceAs (Decidable (∃ n ∈ _, _))

/-- The segments that a status PDU acknowledges. -/
def freedBy (e : AmEntity) (c : ControlPdu) : List Segment :=
  (e.waitList ++ e.retransmitList).filter fun s => Scan.acked e c.ackSn s ∧ ¬ e.Reported c s

/-! ### Deliveries -/

end AmEntity

/-- The SDU that a call reports as delivered. -/
def Upcall.deliveredId : Upcall → Option ℕ
  | sduSuccessfulDelivery id => some id
  | deliverSdu _ | maxRetxReached => none

namespace AmEntity

/-- The SDUs that were reported as delivered. -/
def deliveries (e : AmEntity) : List ℕ := e.upcalls.filterMap Upcall.deliveredId

/-- What a status PDU leaves. -/
structure SortsOut (e : AmEntity) (c : ControlPdu) (e' : AmEntity) : Prop where
  txList : e'.txList = e.txList
  /-- From `ACK_SN` on, segments go on waiting. -/
  waitList : e'.waitList = e.waitList.filter fun s => ¬ Scan.acked e c.ackSn s
  /-- Reported segments are to be sent again, and those from `ACK_SN` on that were before. -/
  retransmitList : e'.retransmitList.Perm
    (((e.waitList ++ e.retransmitList).filter fun s => e.Reported c s) ++
      e.retransmitList.filter fun s => ¬ Scan.acked e c.ackSn s)
  /-- The other segments are freed. -/
  freeCount (i : ℕ) : (e'.sdus i).freeCount =
    (e.sdus i).freeCount + ((e.freedBy c).map Segment.sdu).count i
  /-- No segment is lost or duplicated. -/
  partition : (e'.waitList ++ e'.retransmitList ++ e.freedBy c).Perm
    (e.waitList ++ e.retransmitList)
  /-- An SDU is reported, once, when its last segment is freed. -/
  reports : ∃ done : List ℕ,
    e'.deliveries = e.deliveries ++ (done.map fun i => (e.sdus i).upperLayerId) ∧ done.Nodup ∧
      ∀ i, i ∈ done ↔ (∃ s ∈ e.freedBy c, s.sdu = i) ∧ ∀ s ∈ e'.segments, s.sdu ≠ i

/-- The lists of an entity are sorted, and the reference counts agree with the segments there are.
-/
structure ListInv (e : AmEntity) : Prop where
  snInv : e.SnInv
  waitSorted : e.Sorted e.waitList
  retransmitSorted : e.Sorted e.retransmitList
  balanced (s : Segment) : s ∈ e.segments →
    (e.segments.map Segment.sdu).count s.sdu + (e.sdus s.sdu).freeCount = (e.sdus s.sdu).refCount

theorem OrderInv.listInv {e : AmEntity} (h : e.OrderInv) (hbalanced : ∀ s ∈ e.segments,
    (e.segments.map Segment.sdu).count s.sdu + (e.sdus s.sdu).freeCount =
      (e.sdus s.sdu).refCount) : e.ListInv :=
  ⟨h.snInv, h.waitSorted, h.retransmitSorted, hbalanced⟩

variable {e e' e₀ : AmEntity} {c : ControlPdu} {s : Segment} {l : List Segment} {m n k : Nack}

/-- Some segments were freed, and the SDUs that became free with them were reported. -/
structure Frees (e₀ : AmEntity) (l : List Segment) (e : AmEntity) : Prop where
  refCount (i : ℕ) : (e.sdus i).refCount = (e₀.sdus i).refCount
  upperLayerId (i : ℕ) : (e.sdus i).upperLayerId = (e₀.sdus i).upperLayerId
  freeCount (i : ℕ) : (e.sdus i).freeCount = (e₀.sdus i).freeCount + (l.map Segment.sdu).count i
  reports : ∃ done : List ℕ,
    e.deliveries = e₀.deliveries ++ (done.map fun i => (e₀.sdus i).upperLayerId) ∧ done.Nodup ∧
      ∀ i, i ∈ done ↔ (e₀.sdus i).freeCount < (e₀.sdus i).refCount ∧
        (e₀.sdus i).refCount ≤ (e₀.sdus i).freeCount + (l.map Segment.sdu).count i

namespace Frees

theorem refl (e : AmEntity) : e.Frees [] e := by
  refine ⟨fun _ => rfl, fun _ => rfl, fun _ => rfl, [], ?_, .nil, fun i => ?_⟩
  · exact (List.append_nil _).symm
  · simp

/-- Only the counters and the reports matter. -/
theorem congr (h : e₀.Frees l e)
    (hsdus : ∀ i, (e'.sdus i).refCount = (e.sdus i).refCount ∧
      (e'.sdus i).upperLayerId = (e.sdus i).upperLayerId ∧
      (e'.sdus i).freeCount = (e.sdus i).freeCount)
    (hreports : e'.deliveries = e.deliveries) : e₀.Frees l e' := by
  refine ⟨fun i => ?_, fun i => ?_, fun i => ?_, ?_⟩
  · exact (hsdus i).1.trans (h.refCount i)
  · exact (hsdus i).2.1.trans (h.upperLayerId i)
  · exact (hsdus i).2.2.trans (h.freeCount i)
  · rw [hreports]
    exact h.reports

theorem setRetxSize (h : e₀.Frees l e) (size : ℤ) :
    e₀.Frees l { e with bstatusRetxSize := size } :=
  h.congr (fun _ => ⟨rfl, rfl, rfl⟩) rfl

theorem nackSegment (h : e₀.Frees l e) : e₀.Frees l (e.nackSegment s) := by
  have hsdus : ∀ i, let sdu := (e.setSdu s.sdu { e.sdus s.sdu with
        retxCount := (e.sdus s.sdu).retxCount + 1 }).sdus i
      sdu.refCount = (e.sdus i).refCount ∧ sdu.upperLayerId = (e.sdus i).upperLayerId ∧
        sdu.freeCount = (e.sdus i).freeCount := by
    intro i
    by_cases hi : i = s.sdu
    · subst hi
      simp [setSdu]
    · simp [setSdu, hi]
  rw [AmEntity.nackSegment]
  split_ifs
  · refine h.congr hsdus ?_
    rw [AmEntity.deliveries]
    change (e.upcalls ++ [Upcall.maxRetxReached]).filterMap _ = _
    rw [List.filterMap_append]
    exact List.append_nil _
  · exact h.congr hsdus rfl

theorem ackSegment (h : e₀.Frees l e) : e₀.Frees (s :: l) (e.ackSegment s) := by
  have hset : ∀ i, let sdu := (e.setSdu s.sdu { e.sdus s.sdu with
        freeCount := (e.sdus s.sdu).freeCount + 1 }).sdus i
      sdu.refCount = (e₀.sdus i).refCount ∧ sdu.upperLayerId = (e₀.sdus i).upperLayerId ∧
        sdu.freeCount = (e₀.sdus i).freeCount + ((s :: l).map Segment.sdu).count i := by
    intro i
    have href := h.refCount i
    have hid := h.upperLayerId i
    have hfree := h.freeCount i
    rw [List.map_cons, List.count_cons]
    by_cases hi : i = s.sdu
    · subst hi
      simp [setSdu, href, hid, hfree, Nat.add_assoc]
    · simp [setSdu, hi, Ne.symm hi, href, hid, hfree]
  obtain ⟨done, hreports, hnodup, hdone⟩ := h.reports
  have hcount : ∀ i, ((s :: l).map Segment.sdu).count i =
      (l.map Segment.sdu).count i + if s.sdu = i then 1 else 0 := by
    intro i
    rw [List.map_cons, List.count_cons]
    simp
  have href := h.refCount s.sdu
  have hfree := h.freeCount s.sdu
  rw [AmEntity.ackSegment]
  split_ifs with hlast
  · refine ⟨fun i => (hset i).1, fun i => (hset i).2.1, fun i => (hset i).2.2, done ++ [s.sdu],
      ?_, ?_, ?_⟩
    · change (e.upcalls ++ [Upcall.sduSuccessfulDelivery _]).filterMap _ = _
      rw [List.filterMap_append, List.map_append, ← List.append_assoc, ← hreports]
      change _ ++ [(e.sdus s.sdu).upperLayerId] = _ ++ [(e₀.sdus s.sdu).upperLayerId]
      rw [h.upperLayerId]
      rfl
    · rw [List.nodup_append]
      refine ⟨hnodup, List.nodup_singleton _, ?_⟩
      rintro i hi j hj rfl
      obtain rfl := List.mem_singleton.mp hj
      have hle := ((hdone s.sdu).mp hi).2
      omega
    · intro i
      rw [List.mem_append, List.mem_singleton, hdone, hcount]
      by_cases hi : i = s.sdu
      · subst hi
        rw [if_pos rfl]
        omega
      · rw [if_neg (Ne.symm hi)]
        simp [hi]
  · refine ⟨fun i => (hset i).1, fun i => (hset i).2.1, fun i => (hset i).2.2, done, hreports,
      hnodup, ?_⟩
    intro i
    rw [hdone, hcount]
    by_cases hi : i = s.sdu
    · subst hi
      rw [if_pos rfl]
      omega
    · rw [if_neg (Ne.symm hi), Nat.add_zero]

theorem ackRetxSegment (h : e₀.Frees l e) : e₀.Frees (s :: l) (e.ackRetxSegment s) :=
  (h.setRetxSize _).ackSegment

theorem stopPoll {r : NackRange} (h : e₀.Frees l e) : e₀.Frees l (Scan.stopPoll r e) := by
  rw [Scan.stopPoll]
  split_ifs
  · exact h.congr (fun _ => ⟨rfl, rfl, rfl⟩) rfl
  · exact h

end Frees

theorem Precedes.trans (h : e.Precedes m n) (h' : e.Precedes n k) : e.Precedes m k := by
  obtain ⟨hmn, hstart⟩ := h
  obtain ⟨hnk, hstart'⟩ := h'
  rw [Follows] at hmn hnk
  refine ⟨?_, fun hsn => ?_⟩
  · rcases hmn with hlt | ⟨hsn, hend, hlt⟩
    · exact .inl (by omega)
    · rcases hnk with hlt' | ⟨hsn', -, -⟩
      · exact .inl (by omega)
      · have := hstart' hsn'
        exact .inr ⟨by omega, hend, by omega⟩
  · have := hstart (by omega)
    have := hstart' (by omega)
    omega

/-- A segment that a NACK has passed is not reported by the NACKs behind it. -/
theorem SnInv.not_hits_of_precedes (h : e.SnInv) (hn : n.sn < e.cfg.snModulus)
    (hhit : ¬ e.hits n s) (hbehind : ¬ e.isBehind n s) (hnk : e.Precedes n k) : ¬ e.hits k s := by
  rintro ⟨hsn, hover⟩
  rw [isBehind, not_or, hsn] at hbehind
  obtain ⟨hle, hso⟩ := hbehind
  obtain ⟨hfollows, hstart⟩ := hnk
  have heq : e.modulusTx k.sn = e.modulusTx n.sn := by
    rcases hfollows with hlt | ⟨heq, -⟩
    · exact absurd hlt hle
    · exact heq.symm
  have hstart := hstart heq.symm
  have hso : ¬ n.soStart < s.so := fun hlt => hso ⟨heq, hlt⟩
  have hsn' : e.snOf s = n.sn := h.modulusTx_inj (h.snOf s) hn (hsn ▸ heq)
  have hmiss : ¬ n.overlaps s = true := fun hover => hhit ⟨hsn', hover⟩
  rw [Nack.overlaps, soOverlap, if_neg (by omega)] at hmiss hover
  simp only [Bool.or_eq_true, beq_iff_eq, decide_eq_true_eq, not_or] at hmiss hover
  omega

end AmEntity

/-! ### The walk -/

namespace Scan

variable {c c' : Scan} {e₀ : AmEntity} {all ns : List Nack} {n : Nack} {ackSn : ℕ} {s : Segment}
  {rest pw pr freed : List Segment}

/-- The segments that the walk has come to, `pw` of the wait list and `pr` of the retransmit list,
are in the new retransmit list if a NACK reports them, and freed otherwise. -/
structure Classified (e₀ : AmEntity) (ackSn : ℕ) (all : List Nack) (pw pr freed : List Segment)
    (c : Scan) : Prop where
  keptWait : c.keptWait = []
  waitList : e₀.waitList = pw ++ c.curWait
  retransmitList : e₀.retransmitList = pr ++ c.curRetx
  passed : (c.newRetx ++ freed).Perm (pw ++ pr)
  reported (s : Segment) : s ∈ c.newRetx → ∃ n ∈ all, e₀.hits n s
  acked (s : Segment) : s ∈ freed → acked e₀ ackSn s = true ∧ ∀ n ∈ all, ¬ e₀.hits n s
  frees : e₀.Frees freed c.e

/-- The segments that the walk has still to come to are reported only by NACKs that are still to
come, which are in order. -/
def Coming (e₀ : AmEntity) (all ns : List Nack) (c : Scan) : Prop :=
  ∀ s, s ∈ c.curWait ∨ s ∈ c.curRetx →
    ns.Pairwise e₀.Precedes ∧ ∀ n ∈ all, e₀.hits n s → n ∈ ns

namespace Classified

/-- A reported segment of the wait list is to be sent again. -/
theorem nackWait (h : Classified e₀ ackSn all pw pr freed c) (hcur : c.curWait = s :: rest)
    (hn : n ∈ all) (hhit : e₀.hits n s) :
    Classified e₀ ackSn all (pw ++ [s]) pr freed { c with
      e := c.e.nackSegment s, curWait := rest, waitEnd := c.endAfter,
      newRetx := c.newRetx ++ [s] } := by
  refine ⟨h.keptWait, ?_, h.retransmitList, ?_, ?_, h.acked, h.frees.nackSegment⟩
  · rw [h.waitList, hcur, List.append_assoc]
    rfl
  · have hcount := List.perm_iff_count.mp h.passed
    rw [List.perm_iff_count]
    intro x
    have hx := hcount x
    simp only [List.count_append] at hx ⊢
    omega
  · intro x hx
    rcases List.mem_append.mp hx with hx | hx
    · exact h.reported x hx
    · exact ⟨n, hn, List.mem_singleton.mp hx ▸ hhit⟩

/-- A segment of the wait list is freed. -/
theorem ackWait (h : Classified e₀ ackSn all pw pr freed c) (hcur : c.curWait = s :: rest)
    (hacked : Scan.acked e₀ ackSn s = true) (hnot : ∀ n ∈ all, ¬ e₀.hits n s) :
    Classified e₀ ackSn all (pw ++ [s]) pr (s :: freed)
      { c with e := c.e.ackSegment s, curWait := rest, waitEnd := c.endAfter } := by
  refine ⟨h.keptWait, ?_, h.retransmitList, ?_, h.reported, ?_, h.frees.ackSegment⟩
  · rw [h.waitList, hcur, List.append_assoc]
    rfl
  · have hcount := List.perm_iff_count.mp h.passed
    rw [List.perm_iff_count]
    intro x
    have hx := hcount x
    simp only [List.count_append, List.count_cons, List.count_nil] at hx ⊢
    omega
  · intro x hx
    rcases List.mem_cons.mp hx with rfl | hx
    · exact ⟨hacked, hnot⟩
    · exact h.acked x hx

/-- A reported segment of the retransmit list stays there. -/
theorem nackRetx (h : Classified e₀ ackSn all pw pr freed c) (hcur : c.curRetx = s :: rest)
    (hn : n ∈ all) (hhit : e₀.hits n s) :
    Classified e₀ ackSn all pw (pr ++ [s]) freed
      { c with newRetx := c.newRetx ++ [s], curRetx := rest } := by
  refine ⟨h.keptWait, h.waitList, ?_, ?_, ?_, h.acked, h.frees⟩
  · rw [h.retransmitList, hcur, List.append_assoc]
    rfl
  · have hcount := List.perm_iff_count.mp h.passed
    rw [List.perm_iff_count]
    intro x
    have hx := hcount x
    simp only [List.count_append] at hx ⊢
    omega
  · intro x hx
    rcases List.mem_append.mp hx with hx | hx
    · exact h.reported x hx
    · exact ⟨n, hn, List.mem_singleton.mp hx ▸ hhit⟩

/-- A segment of the retransmit list is freed. -/
theorem ackRetx (h : Classified e₀ ackSn all pw pr freed c) (hcur : c.curRetx = s :: rest)
    (hacked : Scan.acked e₀ ackSn s = true) (hnot : ∀ n ∈ all, ¬ e₀.hits n s) :
    Classified e₀ ackSn all pw (pr ++ [s]) (s :: freed)
      { c with e := c.e.ackRetxSegment s, curRetx := rest } := by
  refine ⟨h.keptWait, h.waitList, ?_, ?_, h.reported, ?_, h.frees.ackRetxSegment⟩
  · rw [h.retransmitList, hcur, List.append_assoc]
    rfl
  · have hcount := List.perm_iff_count.mp h.passed
    rw [List.perm_iff_count]
    intro x
    have hx := hcount x
    simp only [List.count_append, List.count_cons, List.count_nil] at hx ⊢
    omega
  · intro x hx
    rcases List.mem_cons.mp hx with rfl | hx
    · exact ⟨hacked, hnot⟩
    · exact h.acked x hx

theorem stopPoll {r : NackRange} (h : Classified e₀ ackSn all pw pr freed c) :
    Classified e₀ ackSn all pw pr freed { c with e := Scan.stopPoll r c.e } :=
  ⟨h.keptWait, h.waitList, h.retransmitList, h.passed, h.reported, h.acked, h.frees.stopPoll⟩

/-- The walk goes on with what is left of the sorted lists. -/
theorem curWait_sorted (h : Classified e₀ ackSn all pw pr freed c) (he : e₀.ListInv) :
    e₀.Sorted c.curWait :=
  he.waitSorted.sublist (h.waitList ▸ List.sublist_append_right _ _)

theorem curRetx_sorted (h : Classified e₀ ackSn all pw pr freed c) (he : e₀.ListInv) :
    e₀.Sorted c.curRetx :=
  he.retransmitSorted.sublist (h.retransmitList ▸ List.sublist_append_right _ _)

end Classified

/-- A segment that no NACK reports so far, and that the current one has passed, is not reported. -/
theorem Coming.not_hits (h : Coming e₀ all (n :: ns) c) (hinv : e₀.SnInv)
    (hn : n.sn < e₀.cfg.snModulus) (hs : s ∈ c.curWait ∨ s ∈ c.curRetx) (hhit : ¬ e₀.hits n s)
    (hbehind : ¬ e₀.isBehind n s) : ∀ m ∈ all, ¬ e₀.hits m s := by
  intro m hm hhit'
  obtain ⟨horder, hcoming⟩ := h s hs
  rcases List.mem_cons.mp (hcoming m hm hhit') with rfl | hmem
  · exact hhit hhit'
  · have hprecedes := (List.pairwise_cons.mp horder).1 m hmem
    exact hinv.not_hits_of_precedes hn hhit hbehind hprecedes hhit'

/-- Fewer segments are left. -/
theorem Coming.shrink (h : Coming e₀ all ns c)
    (hsub : ∀ s, s ∈ c'.curWait ∨ s ∈ c'.curRetx → s ∈ c.curWait ∨ s ∈ c.curRetx) :
    Coming e₀ all ns c' := fun s hs => h s (hsub s hs)

/-- The NACK has passed all that is left when it stops. -/
theorem Coming.done {x : Segment} (h : Coming e₀ all (n :: ns) c) (hinv : e₀.SnInv)
    (hfirst : ∀ s, s ∈ c.curWait ∨ s ∈ c.curRetx → e₀.place x ≤ e₀.place s)
    (hhit : ¬ e₀.hits n x) (hbehind : e₀.isBehind n x) : Coming e₀ all ns c := by
  intro s hs
  obtain ⟨horder, hcoming⟩ := h s hs
  refine ⟨(List.pairwise_cons.mp horder).2, fun m hm hhit' => ?_⟩
  rcases List.mem_cons.mp (hcoming m hm hhit') with rfl | hmem
  · exact absurd (hinv.place_lt hhit' hhit hbehind) (hfirst s hs).not_gt
  · exact hmem

/-- The first segment of a sorted list is in front of all. -/
theorem place_le_of_head {l : List Segment} {x : Segment} (hl : e₀.Sorted l)
    (hhead : ∀ y ∈ l.head?, e₀.place x ≤ e₀.place y) (hs : s ∈ l) : e₀.place x ≤ e₀.place s := by
  cases l with
  | nil => cases hs
  | cons y l =>
    have hy := hhead y rfl
    rcases List.mem_cons.mp hs with rfl | hs
    · exact hy
    · exact hy.trans ((List.pairwise_cons.mp hl).1 s hs).le

/-- What a round keeps when the segments are classified. -/
def RoundKeeps (e₀ : AmEntity) (ackSn : ℕ) (all : List Nack) (n : Nack) (ns : List Nack) :
    Next → Prop
  | .processNextPdu c =>
    (∃ pw pr freed, Classified e₀ ackSn all pw pr freed c) ∧ Coming e₀ all (n :: ns) c
  | .doneNack c => (∃ pw pr freed, Classified e₀ ackSn all pw pr freed c) ∧ Coming e₀ all ns c
  | .listsOver c =>
    (∃ pw pr freed, Classified e₀ ackSn all pw pr freed c) ∧ c.curWait = [] ∧ c.curRetx = []

theorem roundKeeps_waitHead (hinv : e₀.ListInv) (hn : n ∈ all) (hsn : n.sn < e₀.cfg.snModulus)
    (hbelow : e₀.modulusTx n.sn < e₀.modulusTx ackSn) (he : e₀.Agrees c.e)
    (h : Classified e₀ ackSn all pw pr freed c) (hcoming : Coming e₀ all (n :: ns) c)
    (hcur : c.curWait = s :: rest) (hfirst : ∀ r ∈ c.curRetx.head?, e₀.place s < e₀.place r) :
    RoundKeeps e₀ ackSn all n ns (c.waitHead n ackSn s rest) := by
  have hs : s ∈ c.curWait := hcur ▸ List.mem_cons_self ..
  have hsub : ∀ x, x ∈ rest ∨ x ∈ c.curRetx → x ∈ c.curWait ∨ x ∈ c.curRetx :=
    fun x hx => hx.imp_left fun hx => hcur ▸ List.mem_cons_of_mem _ hx
  rw [waitHead, he.modulusTx, he.snOf]
  split_ifs with hhit hbehind hlt
  · exact ⟨⟨_, _, _, h.nackWait hcur hn hhit⟩, hcoming.shrink hsub⟩
  · refine ⟨⟨_, _, _, h⟩, hcoming.done hinv.snInv ?_ hhit ((behind_iff he).mp hbehind)⟩
    rintro x (hx | hx)
    · refine place_le_of_head (h.curWait_sorted hinv) ?_ hx
      rw [hcur]
      rintro y hy
      obtain rfl := Option.some.inj hy
      exact le_rfl
    · exact place_le_of_head (h.curRetx_sorted hinv) (fun r hr => (hfirst r hr).le) hx
  · have hnot : ¬ e₀.isBehind n s := fun h => hbehind ((behind_iff he).mpr h)
    have hnone := hcoming.not_hits hinv.snInv hsn (.inl hs) hhit hnot
    exact ⟨⟨_, _, _, h.ackWait hcur (decide_eq_true hlt) hnone⟩, hcoming.shrink hsub⟩
  -- a segment that is not before `ACK_SN` is behind the NACK
  all_goals
    exact absurd ((behind_iff he).mpr (.inl (hbelow.trans_le (Nat.not_lt.mp hlt)))) hbehind

theorem roundKeeps_retxHead (hinv : e₀.ListInv) (hn : n ∈ all) (hsn : n.sn < e₀.cfg.snModulus)
    (hbelow : e₀.modulusTx n.sn < e₀.modulusTx ackSn) (he : e₀.Agrees c.e)
    (h : Classified e₀ ackSn all pw pr freed c) (hcoming : Coming e₀ all (n :: ns) c)
    (hcur : c.curRetx = s :: rest) (hfirst : ∀ w ∈ c.curWait.head?, e₀.place s ≤ e₀.place w) :
    RoundKeeps e₀ ackSn all n ns (c.retxHead n ackSn s rest) := by
  have hs : s ∈ c.curRetx := hcur ▸ List.mem_cons_self ..
  have hsub : ∀ x, x ∈ c.curWait ∨ x ∈ rest → x ∈ c.curWait ∨ x ∈ c.curRetx :=
    fun x hx => hx.imp_right fun hx => hcur ▸ List.mem_cons_of_mem _ hx
  rw [retxHead, he.modulusTx, he.snOf]
  split_ifs with hhit hbehind hlt
  · exact ⟨⟨_, _, _, h.nackRetx hcur hn hhit⟩, hcoming.shrink hsub⟩
  · refine ⟨⟨_, _, _, h⟩, hcoming.done hinv.snInv ?_ hhit ((behind_iff he).mp hbehind)⟩
    rintro x (hx | hx)
    · exact place_le_of_head (h.curWait_sorted hinv) hfirst hx
    · refine place_le_of_head (h.curRetx_sorted hinv) ?_ hx
      rw [hcur]
      rintro y hy
      obtain rfl := Option.some.inj hy
      exact le_rfl
  · have hnot : ¬ e₀.isBehind n s := fun h => hbehind ((behind_iff he).mpr h)
    have hnone := hcoming.not_hits hinv.snInv hsn (.inr hs) hhit hnot
    exact ⟨⟨_, _, _, h.ackRetx hcur (decide_eq_true hlt) hnone⟩, hcoming.shrink hsub⟩
  all_goals
    exact absurd ((behind_iff he).mpr (.inl (hbelow.trans_le (Nat.not_lt.mp hlt)))) hbehind

theorem roundKeeps_step (hinv : e₀.ListInv) (hn : n ∈ all) (hsn : n.sn < e₀.cfg.snModulus)
    (hbelow : e₀.modulusTx n.sn < e₀.modulusTx ackSn) (he : e₀.Agrees c.e)
    (h : Classified e₀ ackSn all pw pr freed c) (hcoming : Coming e₀ all (n :: ns) c) :
    RoundKeeps e₀ ackSn all n ns (c.step n ackSn) := by
  refine step_cases ?_ ?_ ?_
  · exact fun hwait hretx => ⟨⟨_, _, _, h⟩, hwait, hretx⟩
  · intro s rest hcur hfirst
    rw [he.place] at hfirst
    exact roundKeeps_waitHead hinv hn hsn hbelow he h hcoming hcur hfirst
  · intro s rest hcur hfirst
    rw [he.place] at hfirst
    exact roundKeeps_retxHead hinv hn hsn hbelow he h hcoming hcur hfirst

/-- The walk keeps the segments classified. -/
theorem classified_rule (hinv : e₀.ListInv) (ackSn : ℕ) (all : List Nack) :
    WalkRule e₀ ackSn
      (fun n => n ∈ all ∧ n.sn < e₀.cfg.snModulus ∧ e₀.modulusTx n.sn < e₀.modulusTx ackSn)
      (fun ns c => (∃ pw pr freed, Classified e₀ ackSn all pw pr freed c) ∧ Coming e₀ all ns c)
      (fun c => (∃ pw pr freed, Classified e₀ ackSn all pw pr freed c) ∧
        c.curWait = [] ∧ c.curRetx = []) where
  next := by
    rintro n ns c c' ⟨hn, hsn, hbelow⟩ he hc ⟨⟨pw, pr, freed, h⟩, hcoming⟩
    have hround := roundKeeps_step hinv hn hsn hbelow he h hcoming
    rw [hc] at hround
    exact hround
  done := by
    rintro n ns c c' ⟨hn, hsn, hbelow⟩ he hc ⟨⟨pw, pr, freed, h⟩, hcoming⟩
    have hround := roundKeeps_step hinv hn hsn hbelow he h hcoming
    rw [hc] at hround
    exact hround
  exhausted := by
    rintro n ns c c' ⟨hn, hsn, hbelow⟩ he hc ⟨⟨pw, pr, freed, h⟩, hcoming⟩
    have hround := roundKeeps_step hinv hn hsn hbelow he h hcoming
    rw [hc] at hround
    exact hround
  ended := by
    rintro ns c ⟨h, hwait, hretx⟩
    refine ⟨h, fun s hs => ?_⟩
    rw [hwait, hretx] at hs
    simp at hs
  poll := by
    rintro ns c r ⟨⟨pw, pr, freed, h⟩, hcoming⟩
    exact ⟨⟨pw, pr, freed, h.stopPoll⟩, hcoming⟩

/-! ### The end of the walk -/

namespace Classified

/-- The segments of the wait list that are left before `ACK_SN` are freed. -/
theorem ackWaitAll {l : List Segment} (h : Classified e₀ ackSn all pw pr freed c)
    (he : e₀.Agrees c.e) (hl : c.curWait = l) (hnone : ∀ s ∈ l, ∀ n ∈ all, ¬ e₀.hits n s) :
    ∃ pw' freed', Classified e₀ ackSn all pw' pr freed' (c.ackWait ackSn l) := by
  induction l generalizing c pw freed with
  | nil => exact ⟨pw, freed, h⟩
  | cons s rest ih =>
    rw [Scan.ackWait, he.modulusTx, he.snOf]
    split_ifs with hlt
    · have hnone' := fun x hx => hnone x (List.mem_cons_of_mem _ hx)
      exact ih (h.ackWait hl (decide_eq_true hlt) (hnone s (List.mem_cons_self ..)))
        (he.trans AmEntity.agrees_ackSegment) rfl hnone'
    · exact ⟨pw, freed, h⟩

/-- The segments of the retransmit list that are left before `ACK_SN` are freed. -/
theorem ackRetxAll {l : List Segment} (h : Classified e₀ ackSn all pw pr freed c)
    (he : e₀.Agrees c.e) (hl : c.curRetx = l) (hnone : ∀ s ∈ l, ∀ n ∈ all, ¬ e₀.hits n s) :
    ∃ pr' freed', Classified e₀ ackSn all pw pr' freed' (c.ackRetx ackSn l) := by
  induction l generalizing c pr freed with
  | nil => exact ⟨pr, freed, h⟩
  | cons s rest ih =>
    rw [Scan.ackRetx, he.modulusTx, he.snOf]
    split_ifs with hlt
    · have hnone' := fun x hx => hnone x (List.mem_cons_of_mem _ hx)
      exact ih (h.ackRetx hl (decide_eq_true hlt) (hnone s (List.mem_cons_self ..)))
        (he.trans AmEntity.agrees_ackRetxSegment) rfl hnone'
    · exact ⟨pr, freed, h⟩

/-- Every segment is to be sent again, freed, or not come to. -/
theorem perm (h : Classified e₀ ackSn all pw pr freed c) :
    (e₀.waitList ++ e₀.retransmitList).Perm
      (c.newRetx ++ freed ++ (c.curWait ++ c.curRetx)) := by
  have hcount := List.perm_iff_count.mp h.passed
  rw [h.waitList, h.retransmitList, List.perm_iff_count]
  intro x
  have hx := hcount x
  simp only [List.count_append] at hx ⊢
  omega

/-- What was come to is before `ACK_SN`. -/
theorem acked_of_mem (h : Classified e₀ ackSn all pw pr freed c)
    (hbelow : ∀ n ∈ all, e₀.modulusTx n.sn < e₀.modulusTx ackSn)
    (hs : s ∈ pw ++ pr) : Scan.acked e₀ ackSn s = true := by
  rcases List.mem_append.mp (h.passed.mem_iff.mpr hs) with hs | hs
  · obtain ⟨n, hn, hsn, -⟩ := h.reported s hs
    refine decide_eq_true ?_
    rw [hsn]
    exact hbelow n hn
  · exact (h.acked s hs).1

end Classified

end Scan

namespace AmEntity

variable {e : AmEntity} {c : ControlPdu} {u : Scan} {s : Segment} {pw pr freed : List Segment}

theorem acked_of_reported (hbelow : ∀ n ∈ e.nacksOf c, e.modulusTx n.sn < e.modulusTx c.ackSn)
    (hs : e.Reported c s) : Scan.acked e c.ackSn s = true := by
  obtain ⟨n, hn, hsn, -⟩ := hs
  refine decide_eq_true ?_
  rw [hsn]
  exact hbelow n hn

/-- What is left at the end of the walk is not before `ACK_SN`. -/
def Finished (e : AmEntity) (c : ControlPdu) (u : Scan) : Prop :=
  ∀ s ∈ u.curWait ++ u.curRetx, ¬ Scan.acked e c.ackSn s = true

section Finish

variable (h : Scan.Classified e c.ackSn (e.nacksOf c) pw pr freed u)
  (hbelow : ∀ n ∈ e.nacksOf c, e.modulusTx n.sn < e.modulusTx c.ackSn) (hend : e.Finished c u)

include h hbelow hend

omit hbelow in
/-- The segments that are freed are those before `ACK_SN` that no NACK reports. -/
theorem freedBy_perm : (e.freedBy c).Perm freed := by
  refine (h.perm.filter _).trans ?_
  have hnew : u.newRetx.filter (fun s => Scan.acked e c.ackSn s ∧ ¬ e.Reported c s) = [] := by
    rw [List.filter_eq_nil_iff]
    intro s hs
    have hreported : e.Reported c s := h.reported s hs
    simp [hreported]
  have hfreed : freed.filter (fun s => Scan.acked e c.ackSn s ∧ ¬ e.Reported c s) = freed := by
    rw [List.filter_eq_self]
    intro s hs
    obtain ⟨hacked, hnone⟩ := h.acked s hs
    have hnot : ¬ e.Reported c s := fun ⟨n, hn, hhit⟩ => hnone n hn hhit
    simp [hacked, hnot]
  have hleft : (u.curWait ++ u.curRetx).filter
      (fun s => Scan.acked e c.ackSn s ∧ ¬ e.Reported c s) = [] := by
    rw [List.filter_eq_nil_iff]
    intro s hs
    have hnot := hend s hs
    simp [hnot]
  rw [List.filter_append, List.filter_append, hnew, hfreed, hleft, List.append_nil]
  exact .refl _

theorem filter_reported_perm :
    ((e.waitList ++ e.retransmitList).filter fun s => e.Reported c s).Perm u.newRetx := by
  refine (h.perm.filter _).trans ?_
  have hnew : u.newRetx.filter (fun s => e.Reported c s) = u.newRetx := by
    rw [List.filter_eq_self]
    intro s hs
    have hreported : e.Reported c s := h.reported s hs
    simp [hreported]
  have hfreed : freed.filter (fun s => e.Reported c s) = [] := by
    rw [List.filter_eq_nil_iff]
    intro s hs
    have hnot : ¬ e.Reported c s := fun ⟨n, hn, hhit⟩ => (h.acked s hs).2 n hn hhit
    simp [hnot]
  have hleft : (u.curWait ++ u.curRetx).filter (fun s => e.Reported c s) = [] := by
    rw [List.filter_eq_nil_iff]
    intro s hs
    have hnot : ¬ e.Reported c s := fun hs' => hend s hs (acked_of_reported hbelow hs')
    simp [hnot]
  rw [List.filter_append, List.filter_append, hnew, hfreed, hleft, List.append_nil,
    List.append_nil]

/-- The segments of a list that are not before `ACK_SN` are those that the walk did not take. -/
theorem filter_not_acked {l l' : List Segment} (hl : ∀ s ∈ l, s ∈ pw ++ pr)
    (hl' : ∀ s ∈ l', s ∈ u.curWait ++ u.curRetx) :
    (l ++ l').filter (fun s => ¬ Scan.acked e c.ackSn s) = l' := by
  have hnone : l.filter (fun s => ¬ Scan.acked e c.ackSn s) = [] := by
    rw [List.filter_eq_nil_iff]
    intro s hs
    simp [h.acked_of_mem hbelow (hl s hs)]
  have hall : l'.filter (fun s => ¬ Scan.acked e c.ackSn s) = l' := by
    rw [List.filter_eq_self]
    intro s hs
    simpa using hend s (hl' s hs)
  rw [List.filter_append, hnone, hall, List.nil_append]

omit hbelow in
/-- An SDU is reported when none of its segments is left. -/
theorem last_freed_iff (hinv : e.ListInv) (htx : u.e.txList = e.txList) (i : ℕ) :
    ((e.sdus i).freeCount < (e.sdus i).refCount ∧
      (e.sdus i).refCount ≤ (e.sdus i).freeCount + (freed.map Segment.sdu).count i) ↔
      (∃ s ∈ e.freedBy c, s.sdu = i) ∧ ∀ s ∈ u.finish.segments, s.sdu ≠ i := by
  have hfreed := freedBy_perm h hend
  have hsegments : e.segments.Perm (u.finish.segments ++ freed) := by
    have hcount := List.perm_iff_count.mp h.perm
    rw [List.perm_iff_count]
    intro x
    have hx := hcount x
    change _ =
      (u.e.txList ++ (u.keptWait ++ u.curWait) ++ (u.newRetx ++ u.curRetx) ++ freed).count x
    rw [segments, htx, h.keptWait]
    simp only [List.count_append, List.nil_append] at hx ⊢
    omega
  have hcount : (e.segments.map Segment.sdu).count i =
      (u.finish.segments.map Segment.sdu).count i + (freed.map Segment.sdu).count i := by
    rw [(hsegments.map Segment.sdu).count_eq, List.map_append, List.count_append]
  have hbalanced : ∀ s ∈ freed, s.sdu = i →
      (e.segments.map Segment.sdu).count i + (e.sdus i).freeCount = (e.sdus i).refCount := by
    rintro s hs rfl
    exact hinv.balanced s (hsegments.mem_iff.mpr (List.mem_append_right _ hs))
  have hmem : (∃ s ∈ e.freedBy c, s.sdu = i) ↔ ∃ s ∈ freed, s.sdu = i := by
    simp only [hfreed.mem_iff]
  have hleft : (∀ s ∈ u.finish.segments, s.sdu ≠ i) ↔
      (u.finish.segments.map Segment.sdu).count i = 0 := by
    rw [List.count_eq_zero, List.mem_map]
    push Not
    rfl
  rw [hmem, hleft]
  constructor
  · rintro ⟨hlt, hle⟩
    have hpos : 0 < (freed.map Segment.sdu).count i := by omega
    obtain ⟨s, hs, hsdu⟩ := List.mem_map.mp (List.count_pos_iff.mp hpos)
    have := hbalanced s hs hsdu
    exact ⟨⟨s, hs, hsdu⟩, by omega⟩
  · rintro ⟨⟨s, hs, hsdu⟩, hzero⟩
    have hpos : 0 < (freed.map Segment.sdu).count i :=
      List.count_pos_iff.mpr (List.mem_map.mpr ⟨s, hs, hsdu⟩)
    have := hbalanced s hs hsdu
    omega

/-- The segments are sorted out at the end of the walk. -/
theorem sortsOut_finish (hinv : e.ListInv) (htx : u.e.txList = e.txList) :
    e.SortsOut c (u.finish.updateTxNextAck c.ackSn) := by
  have hfreed := freedBy_perm h hend
  have hreported := filter_reported_perm h hbelow hend
  have hwait : u.finish.waitList = u.curWait := by
    change u.keptWait ++ u.curWait = u.curWait
    rw [h.keptWait, List.nil_append]
  refine ⟨htx, ?_, ?_, fun i => ?_, ?_, ?_⟩
  · change u.finish.waitList = _
    rw [hwait, h.waitList]
    exact (filter_not_acked h hbelow hend (fun s hs => List.mem_append_left _ hs)
      fun s hs => List.mem_append_left _ hs).symm
  · have hstay : e.retransmitList.filter (fun s => ¬ Scan.acked e c.ackSn s) = u.curRetx := by
      rw [h.retransmitList]
      exact filter_not_acked h hbelow hend (fun s hs => List.mem_append_right _ hs)
        fun s hs => List.mem_append_right _ hs
    rw [hstay]
    exact (hreported.append_right _).symm
  · rw [(hfreed.map Segment.sdu).count_eq]
    exact h.frees.freeCount i
  · change (u.finish.waitList ++ (u.newRetx ++ u.curRetx) ++ e.freedBy c).Perm _
    have hcount := List.perm_iff_count.mp h.perm
    rw [hwait, List.perm_iff_count]
    intro x
    have hx := hcount x
    have hx' := List.perm_iff_count.mp hfreed x
    simp only [List.count_append] at hx ⊢
    omega
  · obtain ⟨done, hdone, hnodup, hmem⟩ := h.frees.reports
    refine ⟨done, hdone, hnodup, fun i => (hmem i).trans ?_⟩
    exact last_freed_iff h hend hinv htx i

end Finish

theorem Frees.ackPoll {ackSn : ℕ} : e.Frees [] (Scan.start
    (if e.modulusTx e.pollSn < e.modulusTx ackSn then
      { e with tPollRetransmitStart := 0 } else e)).e := by
  split_ifs
  · exact (Frees.refl e).congr (fun _ => ⟨rfl, rfl, rfl⟩) rfl
  · exact .refl e

/-- The walk starts with all segments to come to. -/
theorem classified_start {ackSn : ℕ} (all : List Nack) :
    Scan.Classified e ackSn all [] [] [] (Scan.start
      (if e.modulusTx e.pollSn < e.modulusTx ackSn then
        { e with tPollRetransmitStart := 0 } else e)) := by
  refine ⟨rfl, ?_, ?_, .refl _, ?_, ?_, .ackPoll⟩
  · split_ifs <;> rfl
  · split_ifs <;> rfl
  · exact fun s hs => absurd hs List.not_mem_nil
  · exact fun s hs => absurd hs List.not_mem_nil

theorem sn_lt_of_mem_nacksOf {n : Nack} (hn : n ∈ e.nacksOf c) : n.sn < e.cfg.snModulus := by
  obtain ⟨r, -, hn⟩ := List.mem_flatMap.mp hn
  obtain ⟨i, -, rfl⟩ := List.mem_map.mp hn
  exact Nat.mod_lt _ e.cfg.snModulus_pos

/-- A status PDU, with NACKs in order and before `ACK_SN`, sorts out the segments. -/
theorem applyControlPdu_sortsOut (hinv : e.ListInv)
    (horder : (e.nacksOf c).IsChain e.Precedes)
    (hbelow : ∀ n ∈ e.nacksOf c, e.modulusTx n.sn < e.modulusTx c.ackSn) :
    e.SortsOut c (e.applyControlPdu c) := by
  have : IsTrans Nack e.Precedes := ⟨fun _ _ _ => Precedes.trans⟩
  have hpairwise : (e.nacksOf c).Pairwise e.Precedes := List.isChain_iff_pairwise.mp horder
  have hwalk : e.Agrees (e.statusWalk c).e := agrees_ackPoll.trans Scan.agrees_walk
  obtain ⟨⟨pw, pr, freed, hclassified⟩, hcoming⟩ :=
    (Scan.classified_rule hinv c.ackSn (e.nacksOf c)).walk
      (fun n hn => ⟨hn, sn_lt_of_mem_nacksOf hn, hbelow n hn⟩) agrees_ackPoll
      ⟨⟨[], [], [], classified_start _⟩, fun _ _ => ⟨hpairwise, fun n hn _ => hn⟩⟩
  change Scan.Classified e c.ackSn (e.nacksOf c) pw pr freed (e.statusWalk c) at hclassified
  -- no NACK is left for the segments that the walk has not come to
  have hnone : ∀ s, s ∈ (e.statusWalk c).curWait ∨ s ∈ (e.statusWalk c).curRetx →
      ∀ n ∈ e.nacksOf c, ¬ e.hits n s :=
    fun s hs n hn hhit => List.not_mem_nil ((hcoming s hs).2 n hn hhit)
  have hwaitSorted := hclassified.curWait_sorted hinv
  have hretxSorted := hclassified.curRetx_sorted hinv
  obtain ⟨v, hv⟩ : ∃ v, v = (e.statusWalk c).ackWait c.ackSn (e.statusWalk c).curWait := ⟨_, rfl⟩
  obtain ⟨u, hu⟩ : ∃ u, u = v.ackRetx c.ackSn v.curRetx := ⟨_, rfl⟩
  obtain ⟨hwait, e₁, waitEnd, hwait_eq⟩ := @Scan.ackWait_spec (e.statusWalk c) e c.ackSn hwalk
  obtain ⟨pw', freed', hacked⟩ := hclassified.ackWaitAll hwalk rfl fun s hs => hnone s (.inl hs)
  rw [← hv] at hwait hwait_eq hacked
  have hcurRetx : v.curRetx = (e.statusWalk c).curRetx := by rw [hwait_eq]
  obtain ⟨hretx, e₂, hretx_eq⟩ := @Scan.ackRetx_spec v e c.ackSn (hwalk.trans hwait)
  obtain ⟨pr', freed'', hend⟩ := hacked.ackRetxAll (hwalk.trans hwait) rfl fun s hs =>
    hnone s (.inr (hcurRetx ▸ hs))
  rw [← hu] at hretx hretx_eq hend
  have hfinished : e.Finished c u := by
    intro s hs
    rw [hretx_eq, hcurRetx, hwait_eq] at hs
    rw [Scan.acked, decide_eq_true_eq, Nat.not_lt]
    rcases List.mem_append.mp hs with hs | hs
    · exact Sorted.head_le (hwaitSorted.sublist (List.dropWhile_sublist _))
        (fun w hw => Scan.le_of_mem_head?_dropWhile_acked hw) hs
    · exact Sorted.head_le (hretxSorted.sublist (List.dropWhile_sublist _))
        (fun w hw => Scan.le_of_mem_head?_dropWhile_acked hw) hs
  have happly : e.applyControlPdu c = u.finish.updateTxNextAck c.ackSn := by
    rw [hu, hv]
    rfl
  rw [happly]
  exact sortsOut_finish hend hbelow hfinished hinv ((hwalk.trans hwait).trans hretx).txList

/-- `process_control_pdu` sorts out the segments, for a status PDU whose `ACK_SN` is between
`tx_next_ack` and `tx_next`, and whose NACKs are in order and before `ACK_SN`. -/
theorem processControlPdu_sortsOut {buffer : List UInt8} (hinv : e.ListInv)
    (hc : decodeControlPdu e.cfg buffer = some c)
    (hack : e.modulusTx c.ackSn ≤ e.modulusTx e.txNext)
    (horder : (e.nacksOf c).IsChain e.Precedes)
    (hbelow : ∀ n ∈ e.nacksOf c, e.modulusTx n.sn < e.modulusTx c.ackSn) :
    e.SortsOut c (e.processControlPdu buffer) := by
  have hvalid : e.validControlPdu c = true :=
    validControlPdu_iff.mpr ⟨hack, fun n hn => (hbelow n hn).le⟩
  rw [processControlPdu, hc]
  dsimp only
  rw [if_pos hvalid]
  exact applyControlPdu_sortsOut hinv horder hbelow

end AmEntity

/-- Of three SDUs the second one is reported as missing, and the other ones are acknowledged. -/
theorem processControlPdu_sortsOut_missing : ∃ e, TimelyRun exampleCfg sentOps e ∧
    e.SortsOut ⟨3, [⟨1, 0, -1, 1⟩]⟩ (e.processControlPdu [0, 3, 128, 0, 16]) := by
  obtain ⟨e, he, hbalanced, hc, hack, horder, hbelow⟩ :
      ∃ e, sentOps.foldlM (AmEntity.op 1) (.new exampleCfg) = some e ∧
        (∀ s ∈ e.segments, (e.segments.map Segment.sdu).count s.sdu + (e.sdus s.sdu).freeCount =
          (e.sdus s.sdu).refCount) ∧
        decodeControlPdu e.cfg [0, 3, 128, 0, 16] = some ⟨3, [⟨1, 0, -1, 1⟩]⟩ ∧
        e.modulusTx 3 ≤ e.modulusTx e.txNext ∧
        (e.nacksOf ⟨3, [⟨1, 0, -1, 1⟩]⟩).IsChain e.Precedes ∧
        ∀ n ∈ e.nacksOf ⟨3, [⟨1, 0, -1, 1⟩]⟩, e.modulusTx n.sn < e.modulusTx 3 := by
    refine ⟨_, rfl, ?_⟩
    decide +kernel
  have hnew : TimelyRun exampleCfg [] (.new exampleCfg) := .start rfl
  have hrun : TimelyRun exampleCfg sentOps e := by
    refine hnew.append_foldlM ?_ he
    intro op hop e e' h
    simp only [List.mem_cons, List.not_mem_nil, or_false] at hop
    rcases hop with rfl | rfl | rfl | rfl | rfl | rfl | rfl <;> exact ⟨trivial, 1, h⟩
  have hinv : e.ListInv := (orderInv_of_run hrun).listInv hbalanced
  exact ⟨e, hrun, AmEntity.processControlPdu_sortsOut hinv hc hack horder hbelow⟩

end LlmHric.Rlc
