import LlmHric.Library.RefCount
import LlmHric.Rlc.TransmitSteps

/-! The buffer status follows the PDUs that the transmit list and the retransmit list will make, and
`tx_size` follows the SDUs that are not freed. All operations keep the three counters right, with
one exception: a NACK for `ACK_SN` itself can make the walk over the lists give up the rest of the
retransmit list, which stays counted. -/

namespace LlmHric.Rlc

namespace AmEntity

def segments (e : AmEntity) : List Segment := e.txList ++ e.waitList ++ e.retransmitList

/-- `nr_rlc_free_sdu_segment_list`, where nothing is reported. -/
def freeSegmentList (sdus : ℕ → Sdu) (l : List Segment) : ℕ → Sdu :=
  l.foldl (fun sdus s => Function.update sdus s.sdu
    { sdus s.sdu with freeCount := (sdus s.sdu).freeCount + 1 }) sdus

/-- `nr_rlc_entity_am_reestablishment` -/
def reestablishment (e : AmEntity) : AmEntity :=
  { AmEntity.new e.cfg with
    rx := .new e.rx.size
    sdus := freeSegmentList e.sdus e.segments
    sduCount := e.sduCount
    upcalls := e.upcalls }

end AmEntity

/-- What the user of an entity can ask for. -/
inductive AmRequest
  | op (op : AmOp)
  | reestablishment

/-- A request, when its loops need at most a number of rounds. -/
def AmEntity.request (fuel : ℕ) (e : AmEntity) : AmRequest → Option AmEntity
  | .op op => e.op fuel op
  | .reestablishment => some e.reestablishment

abbrev AmRequestRun (cfg : AmConfig) (requests : List AmRequest) (e : AmEntity) : Prop :=
  Run.Reach (fun r e e' => ∃ fuel, e.request fuel r = some e') (· = AmEntity.new cfg) requests e

namespace AmEntity

variable {e e' : AmEntity} {s : Segment} {l l' retx retx' : List Segment} {c : ControlPdu}

/-! ### The counters -/

/-- The buffer status is the size of the PDUs that are left to send, and `tx_size` the size of the
SDUs that have a segment that is not freed. -/
structure BufferAgrees (e : AmEntity) : Prop where
  bstatusTxSize : e.bstatusTxSize = e.pduSizes e.txList
  bstatusRetxSize : e.bstatusRetxSize = e.pduSizes e.retransmitList
  txSize : e.txSize = ∑ i ∈ Finset.range e.sduCount with
    (e.sdus i).freeCount < (e.sdus i).refCount, ((e.sdus i).data.length : ℤ)

/-- The reference counts of the SDUs. -/
def books (e : AmEntity) : RefCount.Books ℕ :=
  ⟨fun i => (e.sdus i).refCount, fun i => (e.sdus i).freeCount, fun i => (e.sdus i).data.length⟩

/-- The reference counts agree with some segments; an SDU that was not cut has one segment. -/
structure Accounts (e : AmEntity) (l : List Segment) : Prop where
  ledger : RefCount.Ledger e.books (Finset.range e.sduCount) e.txSize (l.map Segment.sdu)
  whole (s : Segment) : s ∈ l → s.isFirst = true → s.isLast = true → (e.sdus s.sdu).refCount = 1

namespace Accounts

theorem subperm (h : e.Accounts l) (hl : l'.Subperm l) : e.Accounts l' := by
  obtain ⟨l₁, hperm, hsub⟩ := hl
  refine ⟨h.ledger.subperm ⟨l₁.map _, hperm.map _, hsub.map _⟩, fun s hs => h.whole s ?_⟩
  exact hsub.subset (hperm.mem_iff.mpr hs)

theorem perm (h : e.Accounts l) (hl : l'.Perm l) : e.Accounts l' := h.subperm hl.subperm

/-- Only the reference counts and `tx_size` matter. -/
theorem congr (h : e.Accounts l) (hbooks : e'.books = e.books) (hcount : e'.sduCount = e.sduCount)
    (hsize : e'.txSize = e.txSize) : e'.Accounts l := by
  refine ⟨?_, fun s hs hfirst hlast => ?_⟩
  · rw [hbooks, hcount, hsize]
    exact h.ledger
  · have hrefs : (e'.sdus s.sdu).refCount = (e.sdus s.sdu).refCount :=
      congrFun (congrArg RefCount.Books.refs hbooks) s.sdu
    rw [hrefs]
    exact h.whole s hs hfirst hlast

end Accounts

/-- The books do not mind the sequence number and `retx_count`. -/
theorem books_setSdu {i : ℕ} {sdu : Sdu} (hrefs : sdu.refCount = (e.sdus i).refCount)
    (hfreed : sdu.freeCount = (e.sdus i).freeCount) (hdata : sdu.data = (e.sdus i).data) :
    (e.setSdu i sdu).books = e.books := by
  ext j
  all_goals
    by_cases hj : j = i
    · subst hj
      simp [books, setSdu, hrefs, hfreed, hdata]
    · simp [books, setSdu, hj]

theorem books_release {i : ℕ} :
    (e.setSdu i { e.sdus i with freeCount := (e.sdus i).freeCount + 1 }).books =
      e.books.release i := by
  ext j
  all_goals
    by_cases hj : j = i
    · subst hj
      simp [books, setSdu, RefCount.Books.release]
    · simp [books, setSdu, RefCount.Books.release, hj]

theorem books_share {i : ℕ} :
    (e.setSdu i { e.sdus i with refCount := (e.sdus i).refCount + 1 }).books =
      e.books.share i := by
  ext j
  all_goals
    by_cases hj : j = i
    · subst hj
      simp [books, setSdu, RefCount.Books.share]
    · simp [books, setSdu, RefCount.Books.share, hj]

theorem Accounts.ackSegment (h : e.Accounts (s :: l)) : (e.ackSegment s).Accounts l := by
  have hledger := h.ledger.release
  have hbooks : (e.ackSegment s).books = e.books.release s.sdu := by
    rw [AmEntity.ackSegment, ← books_release]
    split_ifs <;> rfl
  have hsize : (e.ackSegment s).txSize =
      if e.books.freed s.sdu + 1 = e.books.refs s.sdu then e.txSize - e.books.size s.sdu
      else e.txSize := by
    rw [AmEntity.ackSegment]
    change (if (e.sdus s.sdu).freeCount + 1 =
      (e.sdus s.sdu).refCount then _ else _ : AmEntity).txSize =
      if (e.sdus s.sdu).freeCount + 1 = (e.sdus s.sdu).refCount then
        e.txSize - ((e.sdus s.sdu).data.length : ℕ) else e.txSize
    split_ifs <;> rfl
  have hcount : (e.ackSegment s).sduCount = e.sduCount := by
    rw [AmEntity.ackSegment]
    split_ifs <;> rfl
  refine ⟨?_, fun x hx hfirst hlast => ?_⟩
  · rw [hbooks, hsize, hcount]
    exact hledger
  · have hrefs : (e.ackSegment s).books.refs x.sdu = (e.sdus x.sdu).refCount := by
      rw [hbooks]
      rfl
    exact hrefs.trans (h.whole x (List.mem_cons_of_mem _ hx) hfirst hlast)

theorem Accounts.nackSegment (h : e.Accounts l) : (e.nackSegment s).Accounts l := by
  have hbooks : (e.setSdu s.sdu { e.sdus s.sdu with
      retxCount := (e.sdus s.sdu).retxCount + 1 }).books = e.books := books_setSdu rfl rfl rfl
  rw [AmEntity.nackSegment]
  split_ifs <;> exact h.congr hbooks rfl rfl

theorem Accounts.cut (h : e.Accounts (s :: l)) {x y : Segment} (hx : x.sdu = s.sdu)
    (hxlast : x.isLast = false) (hy : y.sdu = s.sdu) (hyfirst : y.isFirst = false) :
    (e.setSdu s.sdu { e.sdus s.sdu with
      refCount := (e.sdus s.sdu).refCount + 1 }).Accounts (x :: y :: l) := by
  have hledger := h.ledger.share List.mem_cons_self
  refine ⟨?_, fun z hz hfirst hlast => ?_⟩
  · rw [books_share, List.map_cons, List.map_cons, hx, hy]
    exact hledger
  · have hne : ∀ w, w ∈ [x, y] → z ≠ w := by
      rintro w hw rfl
      rcases List.mem_cons.mp hw with rfl | hw
      · rw [hxlast] at hlast
        cases hlast
      · rw [List.mem_singleton.mp hw, hyfirst] at hfirst
        cases hfirst
    have hzl : z ∈ l := by
      simpa [hne x (by simp), hne y (by simp)] using hz
    -- another segment of the SDU that is whole would be its only one
    have hzs : z.sdu ≠ s.sdu := by
      intro heq
      have hone := h.whole z (List.mem_cons_of_mem _ hzl) hfirst hlast
      have hcount := h.ledger.count_le s.sdu
      have hmem : s.sdu ∈ l.map Segment.sdu := heq ▸ List.mem_map_of_mem hzl
      have hpos := List.count_pos_iff.mpr hmem
      rw [List.map_cons, List.count_cons_self] at hcount
      change _ ≤ (e.sdus s.sdu).refCount at hcount
      rw [heq] at hone
      omega
    change (Function.update e.sdus s.sdu _ z.sdu).refCount = 1
    rw [Function.update_of_ne hzs]
    exact h.whole z (List.mem_cons_of_mem _ hzl) hfirst hlast

/-- The counters are right for a retransmit list and all segments. -/
structure Tally (e : AmEntity) (retx l : List Segment) : Prop where
  bstatusTxSize : e.bstatusTxSize = e.pduSizes e.txList
  bstatusRetxSize : e.bstatusRetxSize = e.pduSizes retx
  accounts : e.Accounts l

theorem pduSizes_congr (h : e'.cfg = e.cfg) : e'.pduSizes = e.pduSizes := by
  funext l
  simp only [pduSizes, computePduHeaderSize, h]

theorem pduSizes_cons (s : Segment) (l : List Segment) :
    e.pduSizes (s :: l) = e.computePduHeaderSize s + s.size + e.pduSizes l := by
  simp [pduSizes]

theorem pduSizes_append (l l' : List Segment) :
    e.pduSizes (l ++ l') = e.pduSizes l + e.pduSizes l' := by
  simp [pduSizes]

theorem pduSizes_perm (h : l'.Perm l) : e.pduSizes l' = e.pduSizes l := (h.map _).sum_eq

theorem pduSizes_nonneg (l : List Segment) : 0 ≤ e.pduSizes l := by
  induction l with
  | nil => exact le_rfl
  | cons s l ih =>
    rw [pduSizes_cons]
    omega

theorem pduSizes_pos (s : Segment) (l : List Segment) : 0 < e.pduSizes (s :: l) := by
  have hpos := pduSizes_nonneg (e := e) l
  have hheader : 2 ≤ e.computePduHeaderSize s := by
    rw [computePduHeaderSize]
    omega
  rw [pduSizes_cons]
  omega

namespace Tally

theorem perm (h : e.Tally retx l) (hretx : retx'.Perm retx) (hl : l'.Subperm l) :
    e.Tally retx' l' :=
  ⟨h.bstatusTxSize, h.bstatusRetxSize.trans (pduSizes_perm hretx).symm, h.accounts.subperm hl⟩

theorem bufferAgrees (h : e.Tally e.retransmitList l) : e.BufferAgrees := by
  refine ⟨h.bstatusTxSize, h.bstatusRetxSize, ?_⟩
  rw [h.accounts.ledger.total_eq, Finset.sum_filter]
  rfl

theorem ackSegment (h : e.Tally retx (s :: l)) : (e.ackSegment s).Tally retx l := by
  have haccounts := h.accounts.ackSegment
  revert haccounts
  rw [AmEntity.ackSegment]
  split_ifs
  · exact fun haccounts => ⟨h.bstatusTxSize, h.bstatusRetxSize, haccounts⟩
  · exact fun haccounts => ⟨h.bstatusTxSize, h.bstatusRetxSize, haccounts⟩

theorem nackSegment (h : e.Tally retx l) : (e.nackSegment s).Tally (s :: retx) l := by
  have haccounts := h.accounts.nackSegment (s := s)
  have hsize : e.bstatusRetxSize + e.computePduHeaderSize s + s.size = e.pduSizes (s :: retx) := by
    rw [pduSizes_cons, h.bstatusRetxSize]
    omega
  revert haccounts
  rw [AmEntity.nackSegment]
  split_ifs
  · exact fun haccounts => ⟨h.bstatusTxSize, hsize, haccounts⟩
  · exact fun haccounts => ⟨h.bstatusTxSize, hsize, haccounts⟩

theorem ackRetxSegment (h : e.Tally (s :: retx) (s :: l)) : (e.ackRetxSegment s).Tally retx l := by
  refine ackSegment ⟨h.bstatusTxSize, ?_, h.accounts.congr rfl rfl rfl⟩
  change e.bstatusRetxSize - (e.computePduHeaderSize s + s.size) = e.pduSizes retx
  rw [h.bstatusRetxSize, pduSizes_cons]
  omega

/-- Only the segments and what is counted about them matter. -/
theorem congr (h : e.Tally retx l) (heq : e'.txLists = e.txLists) : e'.Tally retx l := by
  simp only [txLists, TxLists.mk.injEq] at heq
  obtain ⟨hcfg, -, -, hsdus, hcount, htx, hsize, -, -, -, hbtx, hbretx⟩ := heq
  refine ⟨?_, ?_, h.accounts.congr ?_ hcount hsize⟩
  · rw [hbtx, htx, pduSizes_congr hcfg]
    exact h.bstatusTxSize
  · rw [hbretx, pduSizes_congr hcfg]
    exact h.bstatusRetxSize
  · rw [books, hsdus]
    rfl

end Tally

/-! ### Status PDUs that cut the retransmit list -/

/-- The segments of a wait list and a retransmit list in the order in which the walk comes to them,
each with whether it waits. -/
def walkOrder (e : AmEntity) (wait retx : List Segment) : List (Bool × Segment) :=
  (retx.map (Prod.mk false)).merge (wait.map (Prod.mk true)) fun x y =>
    decide (e.place x.2 ≤ e.place y.2)

/-- The walk with the NACKs that are still to come gives up the rest of the retransmit list: it
comes to a segment of that list that is not before `ACK_SN`, that the NACK neither reports nor
leaves for the next one, and that no waiting segment comes after. -/
inductive CutsFrom (e : AmEntity) (ackSn : ℕ) : List Nack → List (Bool × Segment) → Prop
  | cut {n : Nack} {ns : List Nack} {s : Segment} {l : List (Bool × Segment)} :
      ¬ e.hits n s → ¬ e.isBehind n s → e.modulusTx ackSn ≤ e.modulusTx (e.snOf s) →
      (∀ x ∈ l, x.1 = false) → CutsFrom e ackSn (n :: ns) ((false, s) :: l)
  | segment {n : Nack} {ns : List Nack} {x : Bool × Segment} {l : List (Bool × Segment)} :
      e.hits n x.2 ∨ ¬ e.isBehind n x.2 → CutsFrom e ackSn (n :: ns) l →
      CutsFrom e ackSn (n :: ns) (x :: l)
  | nack {n : Nack} {ns : List Nack} {x : Bool × Segment} {l : List (Bool × Segment)} :
      ¬ e.hits n x.2 → e.isBehind n x.2 → CutsFrom e ackSn ns (x :: l) →
      CutsFrom e ackSn (n :: ns) (x :: l)

/-- A status PDU gives up a part of the retransmit list. -/
def CutsRetx (e : AmEntity) (c : ControlPdu) : Prop :=
  e.CutsFrom c.ackSn (e.nacksOf c) (e.walkOrder e.waitList e.retransmitList)

section WalkOrder

variable {wait rest : List Segment} {n : Nack} {ns : List Nack} {x : Bool × Segment}
  {order : List (Bool × Segment)} {ackSn : ℕ}

/-- A waiting segment in front of the retransmit list comes first. -/
theorem walkOrder_cons_wait (h : ∀ r ∈ retx.head?, e.place s < e.place r) :
    e.walkOrder (s :: rest) retx = (true, s) :: e.walkOrder rest retx := by
  cases retx with
  | nil => simp [walkOrder]
  | cons r retx =>
    have hlt : ¬ e.place r ≤ e.place s := (h r rfl).not_ge
    rw [walkOrder, List.map_cons, List.map_cons, List.cons_merge_cons_neg _ _ _
      (by simpa using hlt)]
    rfl

/-- A segment to be sent again that is not behind the wait list comes first. -/
theorem walkOrder_cons_retx (h : ∀ w ∈ wait.head?, e.place s ≤ e.place w) :
    e.walkOrder wait (s :: rest) = (false, s) :: e.walkOrder wait rest := by
  cases wait with
  | nil => simp [walkOrder]
  | cons w wait =>
    rw [walkOrder, List.map_cons, List.map_cons,
      List.cons_merge_cons_pos _ _ _ (by simpa using h w rfl)]
    rfl

theorem fst_eq_false_of_mem_walkOrder_nil (hx : x ∈ e.walkOrder [] retx) : x.1 = false := by
  rw [walkOrder, List.map_nil, List.merge_right] at hx
  obtain ⟨s, -, rfl⟩ := List.mem_map.mp hx
  rfl

theorem mem_walkOrder_of_mem_wait {w : Segment} (hw : w ∈ wait) :
    (true, w) ∈ e.walkOrder wait retx := by
  rw [walkOrder, List.mem_merge]
  exact .inr (List.mem_map_of_mem hw)

/-- A segment that the NACK takes does not matter, unless the list is cut there. -/
theorem cutsFrom_cons_of_taken (htaken : e.hits n x.2 ∨ ¬ e.isBehind n x.2)
    (hkept : x.1 = false → ¬ e.hits n x.2 → e.modulusTx ackSn ≤ e.modulusTx (e.snOf x.2) →
      ∃ y ∈ order, y.1 = true) :
    e.CutsFrom ackSn (n :: ns) (x :: order) ↔ e.CutsFrom ackSn (n :: ns) order := by
  constructor
  · intro h
    cases h with
    | cut hhit hbehind hack hall =>
      obtain ⟨y, hy, hwaits⟩ := hkept rfl hhit hack
      rw [hall y hy] at hwaits
      cases hwaits
    | segment _ h => exact h
    | nack hhit hbehind _ =>
      rcases htaken with h | h
      · exact absurd h hhit
      · exact absurd hbehind h
  · exact .segment htaken

/-- A segment behind the NACK is left to the next one. -/
theorem cutsFrom_cons_of_behind (hhit : ¬ e.hits n x.2) (hbehind : e.isBehind n x.2) :
    e.CutsFrom ackSn (n :: ns) (x :: order) ↔ e.CutsFrom ackSn ns (x :: order) := by
  constructor
  · intro h
    cases h with
    | cut _ hnot _ _ => exact absurd hbehind hnot
    | segment h _ =>
      rcases h with h | h
      · exact absurd h hhit
      · exact absurd hbehind h
    | nack _ _ h => exact h
  · exact .nack hhit hbehind

end WalkOrder

end AmEntity

/-! ### The walk -/

namespace Scan

variable {c c' : Scan} {e₀ : AmEntity} {n : Nack} {ns : List Nack} {ackSn : ℕ}

/-- All segments of the entity during the walk. -/
def segments (c : Scan) : List Segment :=
  c.e.txList ++ (c.keptWait ++ c.curWait) ++ (c.newRetx ++ c.curRetx)

/-- The counters are right during the walk. -/
def Sound (c : Scan) : Prop := c.e.Tally (c.newRetx ++ c.curRetx) c.segments

/-- The rest of the retransmit list was given up. -/
structure Cut (c : Scan) : Prop where
  curWait : c.curWait = []
  curRetx : c.curRetx = []
  excess : c.e.pduSizes c.newRetx < c.e.bstatusRetxSize

/-- The segments that the walk has still to come to. -/
def order (e₀ : AmEntity) (c : Scan) : List (Bool × Segment) := e₀.walkOrder c.curWait c.curRetx

/-- What a round does when the counters are right. -/
inductive Tallied (e₀ : AmEntity) (n : Nack) (ackSn : ℕ) (c : Scan) : Next → Prop
  | taken (c' : Scan) (x : Bool × Segment) : c'.Sound → c.order e₀ = x :: c'.order e₀ →
      e₀.hits n x.2 ∨ ¬ e₀.isBehind n x.2 →
      (x.1 = false → ¬ e₀.hits n x.2 → e₀.modulusTx ackSn ≤ e₀.modulusTx (e₀.snOf x.2) →
        ∃ y ∈ c'.order e₀, y.1 = true) → Tallied e₀ n ackSn c (.processNextPdu c')
  | behind (x : Bool × Segment) (l : List (Bool × Segment)) : c.order e₀ = x :: l →
      ¬ e₀.hits n x.2 → e₀.isBehind n x.2 → Tallied e₀ n ackSn c (.doneNack c)
  | emptied : c.order e₀ = [] → Tallied e₀ n ackSn c (.listsOver c)
  | cut (c' : Scan) (s : Segment) (l : List (Bool × Segment)) : c'.Cut →
      c.order e₀ = (false, s) :: l → (∀ x ∈ l, x.1 = false) → ¬ e₀.hits n s →
      ¬ e₀.isBehind n s → e₀.modulusTx ackSn ≤ e₀.modulusTx (e₀.snOf s) →
      Tallied e₀ n ackSn c (.listsOver c')

theorem segments_perm_wait {s : Segment} {rest : List Segment} (hcur : c.curWait = s :: rest) :
    c.segments.Perm (s :: (c.e.txList ++ (c.keptWait ++ rest) ++ (c.newRetx ++ c.curRetx))) := by
  rw [segments, hcur, List.perm_iff_count]
  intro x
  simp only [List.count_append, List.count_cons]
  omega

theorem segments_perm_retx {s : Segment} {rest : List Segment} (hcur : c.curRetx = s :: rest) :
    c.segments.Perm (s :: (c.e.txList ++ (c.keptWait ++ c.curWait) ++ (c.newRetx ++ rest))) := by
  rw [segments, hcur, List.perm_iff_count]
  intro x
  simp only [List.count_append, List.count_cons]
  omega

theorem tallied_waitHead {s : Segment} {rest : List Segment} (he : e₀.Agrees c.e)
    (hn : e₀.modulusTx n.sn ≤ e₀.modulusTx ackSn) (h : c.Sound) (hcur : c.curWait = s :: rest)
    (hfirst : ∀ r ∈ c.curRetx.head?, e₀.place s < e₀.place r) :
    Tallied e₀ n ackSn c (c.waitHead n ackSn s rest) := by
  have horder : c.order e₀ = (true, s) :: e₀.walkOrder rest c.curRetx := by
    rw [order, hcur]
    exact AmEntity.walkOrder_cons_wait hfirst
  have htaken := segments_perm_wait hcur
  rw [waitHead, he.modulusTx, he.snOf]
  split_ifs with hhit hbehind hlt hgt
  · refine .taken _ (true, s) ?_ horder (.inl hhit) (by simp)
    have htx : (c.e.nackSegment s).txList = c.e.txList := AmEntity.agrees_nackSegment.txList
    refine (AmEntity.Tally.nackSegment h).perm ?_ ?_
    · rw [List.append_assoc]
      exact List.perm_middle
    · refine (List.Perm.trans ?_ htaken.symm).subperm
      rw [segments, htx, List.perm_iff_count]
      intro x
      simp only [List.count_append, List.count_cons, List.count_nil]
      omega
  · exact .behind (true, s) _ horder hhit ((behind_iff he).mp hbehind)
  · refine .taken _ (true, s) ?_ horder (.inr fun h => hbehind ((behind_iff he).mpr h)) (by simp)
    have htx : (c.e.ackSegment s).txList = c.e.txList := AmEntity.agrees_ackSegment.txList
    have htally := (h.perm (.refl _) htaken.symm.subperm).ackSegment
    rw [← htx] at htally
    exact htally
  · -- the segment would be behind the NACK
    have hnot : ¬ e₀.isBehind n s := fun h => hbehind ((behind_iff he).mpr h)
    exact absurd (.inl (hn.trans_lt hgt)) hnot
  · refine .taken _ (true, s) ?_ horder (.inr fun h => hbehind ((behind_iff he).mpr h)) (by simp)
    refine h.perm (.refl _) (List.Perm.subperm ?_)
    rw [segments, segments, hcur, List.append_assoc c.keptWait]
    rfl

theorem tallied_retxHead {s : Segment} {rest : List Segment} (he : e₀.Agrees c.e) (h : c.Sound)
    (hcur : c.curRetx = s :: rest) (hfirst : ∀ w ∈ c.curWait.head?, e₀.place s ≤ e₀.place w) :
    Tallied e₀ n ackSn c (c.retxHead n ackSn s rest) := by
  have horder : c.order e₀ = (false, s) :: e₀.walkOrder c.curWait rest := by
    rw [order, hcur]
    exact AmEntity.walkOrder_cons_retx hfirst
  -- a segment that stays in the list moves to the new one
  have hkept : Sound { c with newRetx := c.newRetx ++ [s], curRetx := rest } := by
    have hlist : c.newRetx ++ [s] ++ rest = c.newRetx ++ c.curRetx := by
      rw [hcur, List.append_assoc]
      rfl
    change c.e.Tally (c.newRetx ++ [s] ++ rest)
      (c.e.txList ++ (c.keptWait ++ c.curWait) ++ (c.newRetx ++ [s] ++ rest))
    rw [hlist]
    exact h
  rw [retxHead, he.modulusTx, he.snOf]
  split_ifs with hhit hbehind hlt hempty
  · exact .taken _ (false, s) hkept horder (.inl hhit) fun _ hnot _ => absurd hhit hnot
  · exact .behind (false, s) _ horder hhit ((behind_iff he).mp hbehind)
  · refine .taken _ (false, s) ?_ horder (.inr fun h => hbehind ((behind_iff he).mpr h)) ?_
    · have htx : (c.e.ackRetxSegment s).txList = c.e.txList := AmEntity.agrees_ackRetxSegment.txList
      have hretx : (s :: (c.newRetx ++ rest)).Perm (c.newRetx ++ c.curRetx) := by
        rw [hcur]
        exact List.perm_middle.symm
      have htally := (h.perm hretx (segments_perm_retx hcur).symm.subperm).ackRetxSegment
      rw [← htx] at htally
      exact htally
    · exact fun _ _ hle => absurd hlt hle.not_gt
  · have hwait : c.curWait = [] := List.isEmpty_iff.mp hempty
    refine .cut _ s _ ⟨hwait, rfl, ?_⟩ horder ?_ hhit (fun h => hbehind ((behind_iff he).mpr h))
      (Nat.not_lt.mp hlt)
    · have hpos := AmEntity.pduSizes_pos (e := c.e) s rest
      change c.e.pduSizes c.newRetx < c.e.bstatusRetxSize
      rw [h.bstatusRetxSize, AmEntity.pduSizes_append, hcur]
      omega
    · rw [hwait]
      exact fun x => AmEntity.fst_eq_false_of_mem_walkOrder_nil
  · refine .taken _ (false, s) hkept horder (.inr fun h => hbehind ((behind_iff he).mpr h)) ?_
    intro _ _ _
    obtain ⟨w, hw⟩ := List.exists_mem_of_ne_nil c.curWait fun h => hempty (by rw [h]; rfl)
    exact ⟨(true, w), AmEntity.mem_walkOrder_of_mem_wait hw, rfl⟩

/-- A round keeps the counters right, or gives up the rest of the retransmit list. -/
theorem tallied_step (he : e₀.Agrees c.e) (hn : e₀.modulusTx n.sn ≤ e₀.modulusTx ackSn)
    (h : c.Sound) : Tallied e₀ n ackSn c (c.step n ackSn) := by
  refine step_cases ?_ ?_ ?_
  · intro hwait hretx
    refine .emptied ?_
    rw [order, hwait, hretx]
    simp [AmEntity.walkOrder]
  · intro s rest hcur hfirst
    rw [he.place] at hfirst
    exact tallied_waitHead he hn h hcur hfirst
  · intro s rest hcur hfirst
    rw [he.place] at hfirst
    exact tallied_retxHead he h hcur hfirst

/-- The state of the walk when `C` says whether the retransmit list is cut: it will be, or it was.
-/
def Foreseen (e₀ : AmEntity) (ackSn : ℕ) (C : Prop) (ns : List Nack) (c : Scan) : Prop :=
  c.Sound ∧ (C ↔ e₀.CutsFrom ackSn ns (c.order e₀)) ∨ C ∧ c.Cut

theorem not_cutsFrom_nil : ¬ e₀.CutsFrom ackSn ns [] := by
  intro h
  cases h

theorem Cut.stopPoll {r : NackRange} (h : c.Cut) : Cut { c with e := Scan.stopPoll r c.e } := by
  refine ⟨h.curWait, h.curRetx, ?_⟩
  have hexcess := h.excess
  rw [Scan.stopPoll]
  split_ifs <;> exact hexcess

theorem Sound.stopPoll {r : NackRange} (h : c.Sound) :
    Sound { c with e := Scan.stopPoll r c.e } := by
  rw [Sound, segments, Scan.stopPoll]
  split_ifs
  · exact AmEntity.Tally.congr h rfl
  · exact h

/-- Once the list is cut there is nothing left for the walk. -/
theorem Cut.step (h : c.Cut) : c.step n ackSn = .listsOver c := by
  rw [Scan.step, h.curWait, h.curRetx]

/-- The walk cuts the list exactly when that was foreseen. -/
theorem foreseen_rule (C : Prop) :
    WalkRule e₀ ackSn (fun n => e₀.modulusTx n.sn ≤ e₀.modulusTx ackSn)
    (Foreseen e₀ ackSn C) fun c => c.Sound ∧ ¬ C ∧ c.order e₀ = [] ∨ C ∧ c.Cut where
  next := by
    rintro n ns c c' hn he hc (⟨hsound, hiff⟩ | ⟨hC, hcut⟩)
    · have htallied := tallied_step he hn hsound
      rw [hc] at htallied
      cases htallied with
      | taken _ x hsound' horder htaken hkept =>
        rw [horder, AmEntity.cutsFrom_cons_of_taken htaken hkept] at hiff
        exact .inl ⟨hsound', hiff⟩
    · cases hcut.step.symm.trans hc
  done := by
    rintro n ns c c' hn he hc (⟨hsound, hiff⟩ | ⟨hC, hcut⟩)
    · have htallied := tallied_step he hn hsound
      rw [hc] at htallied
      cases htallied with
      | behind x l horder hhit hbehind =>
        rw [horder, AmEntity.cutsFrom_cons_of_behind hhit hbehind, ← horder] at hiff
        exact .inl ⟨hsound, hiff⟩
    · cases hcut.step.symm.trans hc
  exhausted := by
    rintro n ns c c' hn he hc (⟨hsound, hiff⟩ | ⟨hC, hcut⟩)
    · have htallied := tallied_step he hn hsound
      rw [hc] at htallied
      cases htallied with
      | emptied horder =>
        rw [horder] at hiff
        exact .inl ⟨hsound, fun hC => not_cutsFrom_nil (hiff.mp hC), horder⟩
      | cut _ s l hcut horder hall hhit hbehind hle =>
        rw [horder] at hiff
        exact .inr ⟨hiff.mpr (.cut hhit hbehind hle hall), hcut⟩
    · cases hcut.step.symm.trans hc
      exact .inr ⟨hC, hcut⟩
  ended := by
    rintro ns c (⟨hsound, hC, horder⟩ | hcut)
    · refine .inl ⟨hsound, iff_of_false hC ?_⟩
      rw [horder]
      exact not_cutsFrom_nil
    · exact .inr hcut
  poll := by
    rintro ns c r (⟨hsound, hiff⟩ | ⟨hC, hcut⟩)
    · exact .inl ⟨hsound.stopPoll, hiff⟩
    · exact .inr ⟨hC, hcut.stopPoll⟩

/-- The waiting segments that are left are acknowledged. -/
theorem Sound.ackWait {l : List Segment} (h : c.Sound) (hl : c.curWait = l) :
    (c.ackWait ackSn l).Sound := by
  induction l generalizing c with
  | nil => exact h
  | cons s rest ih =>
    rw [Scan.ackWait]
    split_ifs
    · refine ih ?_ rfl
      have htx : (c.e.ackSegment s).txList = c.e.txList := AmEntity.agrees_ackSegment.txList
      have htally := (h.perm (.refl _) (segments_perm_wait hl).symm.subperm).ackSegment
      rw [← htx] at htally
      exact htally
    · exact h

/-- The segments to be sent again that are left are acknowledged. -/
theorem Sound.ackRetx {l : List Segment} (h : c.Sound) (hl : c.curRetx = l) :
    (c.ackRetx ackSn l).Sound := by
  induction l generalizing c with
  | nil => exact h
  | cons s rest ih =>
    rw [Scan.ackRetx]
    split_ifs
    · refine ih ?_ rfl
      have htx : (c.e.ackRetxSegment s).txList = c.e.txList := AmEntity.agrees_ackRetxSegment.txList
      have hretx : (s :: (c.newRetx ++ rest)).Perm (c.newRetx ++ c.curRetx) := by
        rw [hl]
        exact List.perm_middle.symm
      have htally := (h.perm hretx (segments_perm_retx hl).symm.subperm).ackRetxSegment
      rw [← htx] at htally
      exact htally
    · exact h

end Scan

namespace AmEntity

variable {e e' : AmEntity} {c : ControlPdu}

/-- The counters of an entity are right for its own lists. -/
abbrev Tallies (e : AmEntity) : Prop := e.Tally e.retransmitList e.segments

/-- Only the segments and what is counted about them matter. -/
theorem Tallies.of_txLists (h : e.Tallies) (heq : e'.txLists = e.txLists) : e'.Tallies := by
  have htally := Tally.congr h heq
  simp only [txLists, TxLists.mk.injEq] at heq
  obtain ⟨-, -, -, -, -, htx, -, hwait, -, hretx, -, -⟩ := heq
  rw [Tallies, segments, htx, hwait, hretx]
  exact htally

/-- The end of the walk. -/
theorem Tallies.finish {c : Scan} (h : c.Sound) (ackSn : ℕ) :
    (c.finish.updateTxNextAck ackSn).Tallies :=
  ⟨h.bstatusTxSize, h.bstatusRetxSize, h.accounts.congr rfl rfl rfl⟩

/-- What was given up stays counted. -/
theorem not_bufferAgrees_finish {c : Scan} (h : c.Cut) (ackSn : ℕ) :
    ¬ (c.finish.updateTxNextAck ackSn).BufferAgrees := by
  intro hagrees
  have hsize : c.e.bstatusRetxSize = c.e.pduSizes (c.newRetx ++ c.curRetx) :=
    hagrees.bstatusRetxSize
  have hexcess := h.excess
  rw [h.curRetx, List.append_nil] at hsize
  omega

/-- A status PDU keeps the counters right unless it cuts the retransmit list. -/
theorem Tallies.applyControlPdu (h : e.Tallies) (hvalid : e.validControlPdu c = true) :
    (e.applyControlPdu c).Tallies ∧ ¬ e.CutsRetx c ∨
      e.CutsRetx c ∧ ¬ (e.applyControlPdu c).BufferAgrees := by
  have hstart : (Scan.start (if e.modulusTx e.pollSn < e.modulusTx c.ackSn then
      { e with tPollRetransmitStart := 0 } else e)).Sound := by
    split_ifs
    · exact h.congr rfl
    · exact h
  have hiff : e.CutsRetx c ↔ e.CutsFrom c.ackSn (e.nacksOf c) (Scan.order e (Scan.start
      (if e.modulusTx e.pollSn < e.modulusTx c.ackSn then
        { e with tPollRetransmitStart := 0 } else e))) := by
    rw [CutsRetx, Scan.order]
    split_ifs <;> rfl
  have hforeseen := (Scan.foreseen_rule (e.CutsRetx c)).walk (validControlPdu_iff.mp hvalid).2
    agrees_ackPoll (.inl ⟨hstart, hiff⟩)
  rcases hforeseen with ⟨hsound, hnone⟩ | ⟨hC, hcut⟩
  · refine .inl ⟨?_, fun hC => ?_⟩
    · exact .finish ((hsound.ackWait rfl).ackRetx rfl) c.ackSn
    · cases hnone.mp hC
  · refine .inr ⟨hC, ?_⟩
    rw [AmEntity.applyControlPdu, hcut.curWait, Scan.ackWait, hcut.curRetx, Scan.ackRetx]
    exact not_bufferAgrees_finish hcut c.ackSn

/-! ### The other operations -/

theorem Accounts.cutSegment (h : e'.Accounts (s :: l)) (size : ℕ) :
    Accounts { e' with sdus := shareSdu e'.sdus s.sdu (e.cutSegment s size).2 }
      ((e.cutSegment s size).1 :: ((e.cutSegment s size).2 ++ l)) := by
  rw [AmEntity.cutSegment]
  split_ifs
  · exact h.cut rfl rfl rfl rfl
  · exact h

theorem Accounts.assignSn (h : e.Accounts l) (s : Segment) : (e.assignSn s).Accounts l := by
  rw [AmEntity.assignSn]
  split
  · exact h
  · exact h.congr (books_setSdu rfl rfl rfl) rfl rfl

theorem tallies_putInWaitList (he : e.putInWaitList s = some e')
    (h : e.Tally e.retransmitList (s :: e.segments)) : e'.Tallies := by
  have hsub := subperm_putInWaitList he
  obtain ⟨waitList, waitEnd, rfl⟩ := putInWaitList_cases he
  have haccounts : Accounts { e with waitList, waitEnd } (s :: e.segments) :=
    h.accounts.congr rfl rfl rfl
  refine ⟨h.bstatusTxSize, h.bstatusRetxSize, haccounts.subperm ?_⟩
  have hmiddle : (e.txList ++ (s :: e.waitList) ++ e.retransmitList).Perm (s :: e.segments) := by
    rw [segments, List.append_assoc, List.append_assoc]
    exact List.perm_middle
  refine List.Subperm.trans ?_ hmiddle.subperm
  change (e.txList ++ waitList ++ e.retransmitList).Subperm _
  obtain ⟨l, hperm, hsublist⟩ := hsub
  refine ⟨e.txList ++ l ++ e.retransmitList, (hperm.append_left _).append_right _, ?_⟩
  exact (hsublist.append_left _).append_right _

theorem Tallies.sendRetx {rest : List Segment} {size : ℕ} (h : e.Tallies)
    (hlist : e.retransmitList = s :: rest)
    (he : (e.takeRetx s rest size).2.putInWaitList (e.takeRetx s rest size).1 = some e') :
    e'.Tallies := by
  rw [takeRetx_eq] at he
  refine tallies_putInWaitList he ⟨h.bstatusTxSize, ?_, ?_⟩
  · change e.bstatusRetxSize - (e.computePduHeaderSize s + s.size : ℕ) +
      e.pduSizes (e.cutSegment s size).2 = e.pduSizes ((e.cutSegment s size).2 ++ rest)
    rw [h.bstatusRetxSize, hlist, pduSizes_cons, pduSizes_append]
    omega
  · have hmiddle : e.segments.Perm (s :: (e.txList ++ e.waitList ++ rest)) := by
      rw [segments, hlist]
      exact List.perm_middle
    have hcut := (h.accounts.perm hmiddle.symm).cutSegment (e := e) size
    have hperm : (e.txList ++ e.waitList ++ ((e.cutSegment s size).2 ++ rest)).Perm
        ((e.cutSegment s size).2 ++ (e.txList ++ e.waitList ++ rest)) := by
      rw [List.perm_iff_count]
      intro x
      simp only [List.count_append]
      omega
    exact (hcut.perm (hperm.cons _)).congr rfl rfl rfl

/-- A segment of the transmit list is sent. -/
theorem Tallies.sendTx {rest : List Segment} {size : ℕ} (h : e.Tallies)
    (hlist : e.txList = s :: rest)
    (he : (e.takeTx s rest size).2.putInWaitList (e.takeTx s rest size).1 = some e') :
    e'.Tallies := by
  have hlists : (e.assignSn s).waitList = e.waitList ∧
      (e.assignSn s).retransmitList = e.retransmitList ∧ (e.assignSn s).cfg = e.cfg ∧
      (e.assignSn s).bstatusRetxSize = e.bstatusRetxSize := by
    rw [assignSn]
    split <;> exact ⟨rfl, rfl, rfl, rfl⟩
  obtain ⟨hwait, hretx, hcfg, hbretx⟩ := hlists
  rw [takeTx_eq] at he
  refine tallies_putInWaitList he ⟨?_, ?_, ?_⟩
  · have hsizes : pduSizes { e.assignSn s with
        sdus := shareSdu (e.assignSn s).sdus s.sdu (e.cutSegment s size).2
        txList := (e.cutSegment s size).2 ++ rest
        bstatusTxSize := e.bstatusTxSize - (e.computePduHeaderSize s + s.size : ℕ) +
          e.pduSizes (e.cutSegment s size).2 } = e.pduSizes := pduSizes_congr hcfg
    rw [hsizes]
    change e.bstatusTxSize - (e.computePduHeaderSize s + s.size : ℕ) +
      e.pduSizes (e.cutSegment s size).2 = e.pduSizes ((e.cutSegment s size).2 ++ rest)
    rw [h.bstatusTxSize, hlist, pduSizes_cons, pduSizes_append]
    omega
  · change (e.assignSn s).bstatusRetxSize = pduSizes _ (e.assignSn s).retransmitList
    rw [hbretx, hretx, h.bstatusRetxSize]
    exact (congrFun (pduSizes_congr hcfg) _).symm
  · have hmiddle : e.segments.Perm (s :: (rest ++ e.waitList ++ e.retransmitList)) := by
      rw [segments, hlist]
      rfl
    have hassign := (h.accounts.perm hmiddle.symm).assignSn s
    have hcut := hassign.cutSegment (e := e) size
    have hperm : ((e.cutSegment s size).2 ++ rest ++ (e.assignSn s).waitList ++
        (e.assignSn s).retransmitList).Perm
        ((e.cutSegment s size).2 ++ (rest ++ e.waitList ++ e.retransmitList)) := by
      rw [hwait, hretx, List.append_assoc, List.append_assoc, List.append_assoc]
    exact (hcut.perm (hperm.cons _)).congr rfl rfl rfl

theorem Tallies.sends {size : ℕ} (h : e.Tallies) (hsends : e.Sends size e') : e'.Tallies := by
  cases hsends with
  | nothing heq => exact h.of_txLists heq
  | retx s rest e₁ hlist _ he heq => exact (h.sendRetx hlist he).of_txLists heq
  | tx s rest e₁ _ hlist _ he heq => exact (h.sendTx hlist he).of_txLists heq

/-- A segment goes from the wait list to the retransmit list. -/
theorem Tallies.moveHead {cur : Segment} {rest : List Segment} (h : e.Tallies)
    (hlist : e.waitList = cur :: rest) : (e.moveHead cur rest).Tallies := by
  have hperm := perm_listAdd (e := e) cur e.retransmitList
  have hsegments : (e.txList ++ rest ++ e.listAdd cur e.retransmitList).Perm e.segments := by
    rw [segments, hlist]
    refine (hperm.append_left _).trans ?_
    rw [List.perm_iff_count]
    intro x
    simp only [List.count_append, List.count_cons]
    omega
  refine ⟨h.bstatusTxSize, ?_, (h.accounts.perm hsegments).congr rfl rfl rfl⟩
  change e.bstatusRetxSize + e.computePduHeaderSize cur + cur.size =
    e.pduSizes (e.listAdd cur e.retransmitList)
  rw [pduSizes_perm hperm, pduSizes_cons, h.bstatusRetxSize]
  omega

theorem Tallies.recvSdu {buffer : List UInt8} {sduId : ℕ} (h : e.Tallies)
    (he : e.recvSdu buffer sduId = some e') : e'.Tallies := by
  rw [AmEntity.recvSdu] at he
  split_ifs at he
  · cases he
    exact h
  · have hbooks : (e.setSdu e.sduCount ⟨none, sduId, buffer, -1, 1, 0⟩).books =
        e.books.alloc e.sduCount buffer.length := by
      ext j
      all_goals
        by_cases hj : j = e.sduCount
        · subst hj
          simp [books, setSdu, RefCount.Books.alloc]
        · simp [books, setSdu, RefCount.Books.alloc, hj]
    have hledger := h.accounts.ledger.alloc (i := e.sduCount) Finset.notMem_range_self
      buffer.length
    rw [← Finset.range_add_one, ← hbooks] at hledger
    set s : Segment := ⟨e.sduCount, buffer.length, 0, true, true⟩
    have hperm : (e.txList ++ [s] ++ e.waitList ++ e.retransmitList).Perm (s :: e.segments) := by
      rw [segments, List.append_assoc, List.append_assoc, List.append_assoc]
      exact List.perm_middle
    cases he
    refine ⟨?_, h.bstatusRetxSize, ⟨hledger.perm (hperm.map _), fun z hz hfirst hlast => ?_⟩⟩
    · change e.bstatusTxSize + e.computePduHeaderSize s + s.size = e.pduSizes (e.txList ++ [s])
      rw [pduSizes_append, pduSizes_singleton, h.bstatusTxSize]
      omega
    · change (Function.update e.sdus e.sduCount _ z.sdu).refCount = 1
      rcases List.mem_cons.mp (hperm.subset hz) with rfl | hz
      · rw [Function.update_self]
      · have hlt := Finset.mem_range.mp (h.accounts.ledger.mem_owners (List.mem_map_of_mem hz))
        rw [Function.update_of_ne hlt.ne]
        exact h.accounts.whole z hz hfirst hlast

/-- An SDU that was not cut is freed with its segment. -/
theorem Tallies.discardSdu (h : e.Tallies) (sduId : ℕ) : (e.discardSdu sduId).Tallies := by
  rw [AmEntity.discardSdu]
  split
  · exact h
  · next s hfind =>
    split_ifs with hwhole
    · obtain ⟨hfirst, hlast⟩ := Bool.and_eq_true_iff.mp hwhole
      have hperm := perm_cons_eraseP hfind
      set rest := e.txList.eraseP fun s => (e.sdus s.sdu).upperLayerId == sduId
      have hsegments : (s :: (rest ++ e.waitList ++ e.retransmitList)).Perm e.segments :=
        ((hperm.append_right _).append_right _).symm
      have haccounts := h.accounts.perm hsegments
      -- the SDU has this segment alone, so it is freed with it
      have hone := haccounts.whole s (List.mem_cons_self ..) hfirst hlast
      have hcount := haccounts.ledger.count_le s.sdu
      rw [List.map_cons, List.count_cons_self] at hcount
      change _ + (e.sdus s.sdu).freeCount ≤ (e.sdus s.sdu).refCount at hcount
      have hfreed : (e.sdus s.sdu).freeCount + 1 = (e.sdus s.sdu).refCount := by omega
      have hack := haccounts.ackSegment
      rw [AmEntity.ackSegment, if_pos hfreed] at hack
      refine ⟨?_, h.bstatusRetxSize, hack.congr rfl rfl rfl⟩
      change e.bstatusTxSize - (e.computePduHeaderSize s + s.size) = e.pduSizes rest
      rw [h.bstatusTxSize, pduSizes_perm hperm, pduSizes_cons]
      omega
    · exact h

/-- An SDU with data has a segment that is neither freed nor in a list. -/
def LeaksSdu (e : AmEntity) : Prop :=
  ∃ i, (e.segments.map Segment.sdu).count i + (e.sdus i).freeCount < (e.sdus i).refCount ∧
    (e.sdus i).data ≠ []

theorem books_freeSegmentList (sdus : ℕ → Sdu) (l : List Segment) :
    books { e with sdus := freeSegmentList sdus l } =
      (books { e with sdus }).releaseAll (l.map Segment.sdu) := by
  induction l generalizing sdus with
  | nil => rfl
  | cons s l ih =>
    rw [freeSegmentList, List.foldl_cons, ← freeSegmentList, ih, List.map_cons]
    exact congrArg (RefCount.Books.releaseAll · _) (books_release (e := { e with sdus }))

/-- A reestablishment frees everything that is in a list. -/
theorem Tallies.reestablishment (h : e.Tallies) :
    e.reestablishment.Tallies ∧ ¬ e.LeaksSdu ∨
      e.LeaksSdu ∧ ¬ e.reestablishment.BufferAgrees := by
  have hledger := h.accounts.ledger
  have hbooks : e.reestablishment.books = e.books.releaseAll (e.segments.map Segment.sdu) :=
    books_freeSegmentList e.sdus e.segments
  have hzero := RefCount.sum_held_releaseAll_eq_zero_iff hledger
  rw [← hbooks] at hzero
  have hleaks : e.LeaksSdu ↔ ¬ ∀ i, (e.segments.map Segment.sdu).count i + e.books.freed i =
      e.books.refs i ∨ e.books.size i = 0 := by
    have hsize : ∀ i, e.books.size i = 0 ↔ (e.sdus i).data = [] := fun i => List.length_eq_zero_iff
    simp only [hsize, not_forall, not_or]
    refine exists_congr fun i => and_congr_left fun _ => ?_
    exact (Nat.lt_iff_le_and_ne.trans (and_iff_right (hledger.count_le i)))
  rw [← hzero] at hleaks
  by_cases hsum : ∑ i ∈ Finset.range e.sduCount, e.reestablishment.books.held i = 0
  · refine .inl ⟨⟨rfl, rfl, ⟨⟨fun i => ?_, fun i hi => ?_, hsum.symm⟩, ?_⟩⟩, ?_⟩
    · rw [hbooks, RefCount.Books.freed_releaseAll, RefCount.Books.refs_releaseAll]
      exact (Nat.zero_add _).trans_le (hledger.count_le i)
    · rw [hbooks, RefCount.Books.refs_releaseAll]
      exact hledger.refs_eq_zero i hi
    · exact fun s hs => absurd hs List.not_mem_nil
    · exact fun hleak => hleaks.mp hleak hsum
  · refine .inr ⟨hleaks.mpr hsum, fun hagrees => hsum ?_⟩
    have htotal := hagrees.txSize
    rw [Finset.sum_filter] at htotal
    exact htotal.symm

/-- A request loses a segment: a status PDU cuts the retransmit list, or the entity is cleared when
a segment is in no list. -/
def LosesSegment (e : AmEntity) : AmRequest → Prop
  | .op (.recvPdu buffer) => ∃ c, e.acceptedStatus buffer = some c ∧ e.CutsRetx c
  | .op _ => False
  | .reestablishment => e.LeaksSdu

theorem tallies_new (cfg : AmConfig) : (new cfg).Tallies := by
  refine ⟨rfl, rfl, ⟨⟨fun i => le_rfl, fun i _ => rfl, rfl⟩, ?_⟩⟩
  exact fun s hs => absurd hs List.not_mem_nil

/-- Counters that are right stay right, unless a segment is lost. -/
theorem Tallies.request {r : AmRequest} {fuel : ℕ} (h : e.Tallies)
    (he : e.request fuel r = some e') :
    e'.Tallies ∧ ¬ e.LosesSegment r ∨ e.LosesSegment r ∧ ¬ e'.BufferAgrees := by
  cases r with
  | reestablishment =>
    cases he
    exact h.reestablishment
  | op op =>
    cases op with
    | recvSdu buffer sduId => exact .inl ⟨h.recvSdu he, id⟩
    | generatePdu size =>
      obtain ⟨⟨pdu, e₁⟩, hpdu, rfl⟩ := Option.map_eq_some_iff.mp he
      refine .inl ⟨generatePdu_invariant ?_ ?_ h hpdu, id⟩
      · exact fun e e' heq h => h.of_txLists heq
      · exact fun e e' hsends h => h.sends hsends
    | recvPdu buffer =>
      cases hc : e.acceptedStatus buffer with
      | none =>
        have hnone : ¬ e.LosesSegment (.op (.recvPdu buffer)) := by
          rintro ⟨c, hc', -⟩
          cases hc.symm.trans hc'
        rcases recvPdu_cases he with hside | ⟨c, hc', -, -⟩
        · exact .inl ⟨h.of_txLists (txLists_of_txSide hside), hnone⟩
        · cases hc.symm.trans hc'
      | some c =>
        obtain ⟨hreceived, hvalid⟩ := Option.filter_eq_some_iff.mp (acceptedStatus_eq.symm.trans hc)
        have hiff : e.LosesSegment (.op (.recvPdu buffer)) ↔ e.CutsRetx c := by
          simp [LosesSegment, hc]
        have heq : e.recvPdu fuel buffer = some e' := he
        rw [recvPdu_of_receivedStatus hreceived, if_pos hvalid] at heq
        obtain rfl := Option.some.inj heq
        rw [hiff]
        exact h.applyControlPdu hvalid
    | setTime now =>
      refine .inl ⟨setTime_invariant ?_ ?_ ?_ h he, id⟩
      · exact fun e e' heq h => h.of_txLists heq
      · intro e i retxCount h
        exact ⟨h.bstatusTxSize, h.bstatusRetxSize,
          h.accounts.congr (books_setSdu rfl rfl rfl) rfl rfl⟩
      · exact fun e cur rest hlist h => h.moveHead hlist
    | discardSdu sduId =>
      cases he
      exact .inl ⟨h.discardSdu sduId, id⟩

end AmEntity

/-! ### Runs -/

/-- The NACKs of a status PDU that is received increase. -/
def AmEntity.WellOrdered (e : AmEntity) : AmRequest → Prop
  | .op (.recvPdu buffer) => ∀ c ∈ e.receivedStatus buffer, e.Increases c
  | _ => True

abbrev WellOrderedRun (cfg : AmConfig) (requests : List AmRequest) (e : AmEntity) : Prop :=
  Run.Reach (fun r e e' => e.WellOrdered r ∧ ∃ fuel, e.request fuel r = some e')
    (· = AmEntity.new cfg) requests e

/-- In every state of every run with well-ordered status PDUs the counters are what is in the
lists. -/
def BufferStatusExact : Prop :=
  ∀ cfg requests e, WellOrderedRun cfg requests e → e.BufferAgrees

/-- The counters are right in all states of a run exactly when no request of the run loses a
segment. -/
theorem bufferAgrees_iff (cfg : AmConfig) (requests : List AmRequest) :
    (∀ pre e, pre <+: requests → AmRequestRun cfg pre e → e.BufferAgrees) ↔
      ∀ pre r e e', pre ++ [r] <+: requests → AmRequestRun cfg pre e →
        (∃ fuel, e.request fuel r = some e') → ¬ e.LosesSegment r := by
  refine Run.Reach.forall_prefix_iff (I := AmEntity.Tallies) ?_ ?_ ?_ ?_ requests
  · rintro e rfl
    exact AmEntity.tallies_new cfg
  · exact fun e h => h.bufferAgrees
  · rintro r e e' h ⟨fuel, he⟩ hkept
    rcases h.request he with ⟨htallies, -⟩ | ⟨hloses, -⟩
    · exact htallies
    · exact absurd hloses hkept
  · rintro r e e' h ⟨fuel, he⟩ hloses
    rcases h.request he with ⟨-, hkept⟩ | ⟨-, hnot⟩
    · exact absurd hloses hkept
    · exact hnot

/-- An SDU is sent in two segments. -/
def segmentedRequests : List AmRequest :=
  [.op (.recvSdu [0, 1, 2, 3, 4, 5, 6, 7, 8, 9] 0), .op (.generatePdu 6), .op (.generatePdu 100)]

/-- `ACK_SN` 1, and a NACK for 0. -/
def missingStatus : List UInt8 := [0, 1, 128, 0, 0]

/-- `ACK_SN` 0, and a NACK for the bytes of 0 from 4 to 9. -/
def partlyMissingStatus : List UInt8 := [0, 0, 128, 0, 4, 0, 4, 0, 9]

/-- Both segments are to be sent again. The NACK for `ACK_SN` itself is for the second one, and
empties the retransmit list. -/
theorem not_bufferStatusExact : ¬ BufferStatusExact := by
  intro hexact
  obtain ⟨e₁, he₁, hinc₁, e₂, he₂, hinc₂, e₃, he₃, hretx, hsize⟩ :
      ∃ e₁, segmentedRequests.foldlM (AmEntity.request 1) (.new exampleCfg) = some e₁ ∧
        (∀ c ∈ e₁.receivedStatus missingStatus, e₁.Increases c) ∧
        ∃ e₂, e₁.request 1 (.op (.recvPdu missingStatus)) = some e₂ ∧
          (∀ c ∈ e₂.receivedStatus partlyMissingStatus, e₂.Increases c) ∧
          ∃ e₃, e₂.request 1 (.op (.recvPdu partlyMissingStatus)) = some e₃ ∧
            e₃.retransmitList = [] ∧ e₃.bstatusRetxSize = 16 := by
    refine ⟨_, rfl, ?_, _, rfl, ?_, _, rfl, ?_, ?_⟩ <;> decide +kernel
  have hnew : WellOrderedRun exampleCfg [] (.new exampleCfg) := .start rfl
  have hrun : WellOrderedRun exampleCfg segmentedRequests e₁ := by
    refine hnew.append_foldlM ?_ he₁
    intro r hr e e' h
    simp only [List.mem_cons, List.not_mem_nil, or_false] at hr
    rcases hr with rfl | rfl | rfl <;> exact ⟨trivial, 1, h⟩
  have hrun₂ : WellOrderedRun exampleCfg
      (segmentedRequests ++ [.op (.recvPdu missingStatus)]) e₂ := hrun.step ⟨hinc₁, 1, he₂⟩
  have hrun₃ : WellOrderedRun exampleCfg (segmentedRequests ++ [.op (.recvPdu missingStatus)] ++
      [.op (.recvPdu partlyMissingStatus)]) e₃ := hrun₂.step ⟨hinc₂, 1, he₃⟩
  have hagrees := hexact _ _ _ hrun₃
  have heq := hagrees.bstatusRetxSize
  rw [hretx, hsize] at heq
  cases heq

end LlmHric.Rlc
