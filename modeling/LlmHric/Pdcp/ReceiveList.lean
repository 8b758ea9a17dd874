import LlmHric.Library.Run
import LlmHric.Pdcp.EndToEnd

/-! The list is in the order of COUNT, what is in it lies between `rx_deliv` and `rx_next`, and
`t_reordering` runs as long as something is in it: otherwise nobody would deliver the list. The
timer is stopped when its start is 0, which is also a time, and a wait that starts then never ends.
-/

namespace LlmHric.Pdcp

open Run

namespace PdcpEntity

variable {e e' : PdcpEntity} {count : UInt32} {sdu : PdcpSdu}

/-- `t_reordering` is neither infinite nor 0. -/
def FiniteTimer (e : PdcpEntity) : Prop := ∃ t, 0 < t ∧ e.cfg.tReordering = some t

/-- The SDUs in the list are in order, and between `rx_deliv` and `rx_next`. -/
structure Ordered (e : PdcpEntity) : Prop where
  sorted : e.rxList.Pairwise fun x y => x.count < y.count
  rxDeliv_lt : ∀ x ∈ e.rxList, e.rxDeliv < x.count
  lt_rxNext : ∀ x ∈ e.rxList, x.count < e.rxNext
  rxDeliv_le : e.rxDeliv ≤ e.rxNext

/-- Somebody will deliver what is in the list. -/
structure ListInv (e : PdcpEntity) : Prop extends Ordered e where
  running : e.FiniteTimer → e.rxList ≠ [] → e.tReorderingStart ≠ 0

/-- What the timer waits for has been announced, and has not been delivered. -/
structure ReorderInv (e : PdcpEntity) : Prop extends ListInv e where
  waits : e.tReorderingStart ≠ 0 → e.rxDeliv < e.rxReord ∧ e.rxReord ≤ e.rxNext

/-- Only the list and the counters matter. -/
theorem Ordered.congr (h : e.Ordered) (hlist : e'.rxList = e.rxList)
    (hdeliv : e'.rxDeliv = e.rxDeliv) (hnext : e'.rxNext = e.rxNext) : e'.Ordered := by
  constructor
  · rw [hlist]
    exact h.sorted
  · rw [hlist, hdeliv]
    exact h.rxDeliv_lt
  · rw [hlist, hnext]
    exact h.lt_rxNext
  · rw [hdeliv, hnext]
    exact h.rxDeliv_le

/-- An empty list is in order. -/
theorem Ordered.of_nil (hlist : e.rxList = []) (hle : e.rxDeliv ≤ e.rxNext) : e.Ordered := by
  constructor
  · rw [hlist]
    exact List.Pairwise.nil
  · rw [hlist]
    exact fun x hx => absurd hx List.not_mem_nil
  · rw [hlist]
    exact fun x hx => absurd hx List.not_mem_nil
  · exact hle

/-- Nobody needs to deliver an empty list. -/
theorem ReorderInv.of_nil (hlist : e.rxList = []) (hle : e.rxDeliv ≤ e.rxNext)
    (hwaits : e.tReorderingStart ≠ 0 → e.rxDeliv < e.rxReord ∧ e.rxReord ≤ e.rxNext) :
    e.ReorderInv :=
  ⟨⟨.of_nil hlist hle, fun _ hne => absurd hlist hne⟩, hwaits⟩

theorem sduInList_iff {l : List PdcpSdu} : sduInList count l = true ↔ ∃ x ∈ l, x.count = count := by
  simp [sduInList]

/-! ### Delivery -/

/-- What the delivery from a COUNT leaves alone. -/
theorem deliverFrom_frame {α : Type*} {g : PdcpEntity → α}
    (hg : ∀ e cur next, g (e.deliverHead cur next) = g e)
    (hg' : ∀ (e : PdcpEntity) rxDeliv, g { e with rxDeliv } = g e) (e : PdcpEntity)
    (count : UInt32) : g (e.deliverFrom count) = g e :=
  (hg' _ _).trans (deliverConsecutive_frame hg _ _ _)

/-- The list and `rx_deliv` after the delivery from a COUNT. -/
structure DeliveredFrom (count : UInt32) (e e' : PdcpEntity) : Prop where
  ordered : e'.Ordered
  le_rxDeliv : count ≤ e'.rxDeliv
  subset : ∀ x ∈ e'.rxList, x ∈ e.rxList
  split : ∀ x ∈ e.rxList, x.count < e'.rxDeliv ∨ x ∈ e'.rxList
  consecutive : ∀ c, count ≤ c → c < e'.rxDeliv → ∃ x ∈ e.rxList, x.count = c

theorem deliveredFrom (hsorted : e.rxList.Pairwise fun x y => x.count < y.count)
    (hge : ∀ x ∈ e.rxList, count ≤ x.count) (hlt : ∀ x ∈ e.rxList, x.count < e.rxNext)
    (hle : count ≤ e.rxNext) : DeliveredFrom count e (e.deliverFrom count) := by
  obtain ⟨pre, rest, hdelivers, hcount, hend, hpre, hrest⟩ := deliverConsecutive_spec (e := e)
    rfl hsorted hge (fun x hx => UInt32.lt_iff_toNat_lt.mp (hlt x hx))
    (UInt32.le_iff_toNat_le.mp hle) e.rxNext.toNat_lt
  have hstop := deliverConsecutive_stop (e := e) count rfl
  have hnext : (e.deliverFrom count).rxNext = e.rxNext :=
    deliverFrom_frame (fun _ _ _ => rfl) (fun _ _ => rfl) e count
  have hlist : (e.deliverFrom count).rxList = rest := by
    obtain ⟨-, rxSize, heq⟩ := hdelivers
    change (deliverConsecutive count e.rxList e).2.rxList = rest
    rw [heq]
  have hstart : e.rxList = pre ++ rest := hdelivers.1
  have hsubset : ∀ x ∈ rest, x ∈ e.rxList := fun x hx => hstart ▸ List.mem_append_right _ hx
  change ∀ x ∈ (e.deliverFrom count).rxList.head?, x.count ≠ (e.deliverFrom count).rxDeliv at hstop
  rw [hlist] at hstop
  -- the first SDU that is left has another COUNT, and those behind it a larger one
  have hgt : ∀ x ∈ rest, (e.deliverFrom count).rxDeliv < x.count := by
    have hpairwise : rest.Pairwise fun x y => x.count < y.count := by
      rw [hstart] at hsorted
      exact (List.pairwise_append.mp hsorted).2.1
    cases rest with
    | nil => exact fun x hx => absurd hx List.not_mem_nil
    | cons y rest =>
      have hy : (e.deliverFrom count).rxDeliv < y.count :=
        UInt32.lt_of_le_of_ne (hrest y (List.mem_cons_self ..)) (hstop y rfl).symm
      intro x hx
      rcases List.mem_cons.mp hx with rfl | hx
      · exact hy
      · exact UInt32.lt_trans hy ((List.pairwise_cons.mp hpairwise).1 x hx)
  constructor
  · constructor
    · rw [hlist]
      rw [hstart] at hsorted
      exact (List.pairwise_append.mp hsorted).2.1
    · rw [hlist]
      exact hgt
    · rw [hlist, hnext]
      exact fun x hx => hlt x (hsubset x hx)
    · rw [hnext]
      exact UInt32.le_iff_toNat_le.mpr hend
  · exact hcount
  · rw [hlist]
    exact hsubset
  · intro x hx
    rw [hlist]
    rw [hstart] at hx
    rcases List.mem_append.mp hx with hx | hx
    · exact .inl (hpre x hx)
    · exact .inr hx
  · exact fun c => deliverConsecutive_mem e

theorem deliverAllSdus_frame {α : Type*} {g : PdcpEntity → α}
    (hg : ∀ e cur next, g (e.deliverHead cur next) = g e) (l : List PdcpSdu) (e : PdcpEntity) :
    g (deliverAllSdus l e) = g e := by
  induction l generalizing e with
  | nil => rfl
  | cons cur next ih => exact (ih _).trans (hg e cur next)

theorem rxList_deliverAllSdus {l : List PdcpSdu} (h : e.rxList = l) :
    (deliverAllSdus l e).rxList = [] := by
  induction l generalizing e with
  | nil => exact h
  | cons cur next ih => exact ih rfl

/-- What becomes of the timer after a delivery: it goes on, or it starts again because something is
missing, or it stays stopped. -/
theorem restart_cases (e : PdcpEntity) :
    e.tReorderingStart ≠ 0 ∧ e.rxDeliv < e.rxReord ∧
        e.stopTReordering.startTReordering = e ∨
      ¬ (e.tReorderingStart ≠ 0 ∧ e.rxDeliv < e.rxReord) ∧ e.rxDeliv < e.rxNext ∧
        e.stopTReordering.startTReordering =
          { e with rxReord := e.rxNext, tReorderingStart := e.tCurrent } ∨
      ¬ (e.tReorderingStart ≠ 0 ∧ e.rxDeliv < e.rxReord) ∧ ¬ e.rxDeliv < e.rxNext ∧
        e.stopTReordering.startTReordering = { e with tReorderingStart := 0 } := by
  by_cases hgo : e.tReorderingStart ≠ 0 ∧ e.rxDeliv < e.rxReord
  · have hstop : e.stopTReordering = e := by
      rw [stopTReordering, if_neg fun h => UInt32.not_le.mpr hgo.2 h.2]
    left
    refine ⟨hgo.1, hgo.2, ?_⟩
    rw [hstop, startTReordering, if_neg fun h => hgo.1 h.1]
  · right
    have hstop : e.stopTReordering = { e with tReorderingStart := 0 } := by
      rw [stopTReordering]
      split_ifs with h
      · rfl
      · have hzero : e.tReorderingStart = 0 := by
          by_contra hne
          exact hgo ⟨hne, UInt32.not_le.mp fun hle => h ⟨hne, hle⟩⟩
        rw [← hzero]
    by_cases hmissing : e.rxDeliv < e.rxNext
    · left
      refine ⟨hgo, hmissing, ?_⟩
      rw [hstop, startTReordering, if_pos ⟨rfl, hmissing⟩]
    · right
      refine ⟨hgo, hmissing, ?_⟩
      rw [hstop, startTReordering, if_neg fun h => hmissing h.2]

/-- The timer has been looked after: it waits for something that has been announced. -/
theorem Ordered.restart (h : e.Ordered) (hreord : e.tReorderingStart ≠ 0 → e.rxReord ≤ e.rxNext)
    (htime : e.FiniteTimer → e.rxList ≠ [] → ¬ (e.tReorderingStart ≠ 0 ∧ e.rxDeliv < e.rxReord) →
      e.tCurrent ≠ 0) : e.stopTReordering.startTReordering.ReorderInv := by
  rcases restart_cases e with ⟨hstart, hlt, heq⟩ | ⟨hgo, hlt, heq⟩ | ⟨-, hlt, heq⟩ <;> rw [heq]
  · exact ⟨⟨h, fun _ _ => hstart⟩, fun _ => ⟨hlt, hreord hstart⟩⟩
  · refine ⟨⟨h.congr rfl rfl rfl, fun hfinite hlist => htime hfinite hlist hgo⟩, fun _ => ?_⟩
    exact ⟨hlt, UInt32.le_refl _⟩
  · have hlist : e.rxList = [] := by
      apply List.eq_nil_iff_forall_not_mem.mpr
      intro x hx
      exact hlt (UInt32.lt_trans (h.rxDeliv_lt x hx) (h.lt_rxNext x hx))
    exact .of_nil hlist h.rxDeliv_le fun hne => absurd rfl hne

theorem Ordered.restart_breaks (h : e.Ordered) (hfinite : e.FiniteTimer) (hlist : e.rxList ≠ [])
    (hgo : ¬ (e.tReorderingStart ≠ 0 ∧ e.rxDeliv < e.rxReord)) (htime : e.tCurrent = 0) :
    ¬ e.stopTReordering.startTReordering.ListInv := by
  obtain ⟨x, hx⟩ := List.exists_mem_of_ne_nil _ hlist
  have hmissing : e.rxDeliv < e.rxNext := UInt32.lt_trans (h.rxDeliv_lt x hx) (h.lt_rxNext x hx)
  intro hinv
  rcases restart_cases e with ⟨hstart, hlt, -⟩ | ⟨-, -, heq⟩ | ⟨-, hlt, -⟩
  · exact hgo ⟨hstart, hlt⟩
  · rw [heq] at hinv
    exact hinv.running hfinite hlist htime
  · exact hlt hmissing

/-! ### Reception -/

theorem receivedSdu_new {f : SecurityFunctions} {buffer : List UInt8}
    (h : e.receivedSdu f buffer = some sdu) :
    e.rxDeliv ≤ sdu.count ∧ ∀ x ∈ e.rxList, x.count ≠ sdu.count := by
  rw [receivedSdu] at h
  split_ifs at h
  rw [checkedSdu] at h
  split_ifs at h with _ hnew
  obtain rfl := Option.some.inj h
  rw [not_or] at hnew
  refine ⟨UInt32.not_lt.mp hnew.1, fun x hx heq => hnew.2 (sduInList_iff.mpr ⟨x, hx, heq⟩)⟩

/-- What is in the list once an SDU has been stored. The SDU itself may be due. -/
structure Stored (sdu : PdcpSdu) (e e' : PdcpEntity) : Prop where
  mem : ∀ x, x ∈ e'.rxList ↔ x = sdu ∨ x ∈ e.rxList
  sorted : e'.rxList.Pairwise fun x y => x.count < y.count
  le_count : ∀ x ∈ e'.rxList, e.rxDeliv ≤ x.count
  lt_rxNext : ∀ x ∈ e'.rxList, x.count < e'.rxNext
  rxNext_le : e.rxNext ≤ e'.rxNext

theorem Ordered.stored (h : e.Ordered) (hle : e.rxDeliv ≤ sdu.count)
    (hnew : ∀ x ∈ e.rxList, x.count ≠ sdu.count) (hwrap : sdu.count ≠ 0xFFFFFFFF) (size : ℕ) :
    Stored sdu e (e.storeSdu sdu size) := by
  have hsucc : (sdu.count + 1).toNat = sdu.count.toNat + 1 := by
    have hne : sdu.count.toNat ≠ 0xFFFFFFFF := fun h => hwrap (UInt32.toNat_inj.mp h)
    have hlt := sdu.count.toNat_lt
    rw [UInt32.toNat_add, UInt32.toNat_one, Nat.mod_eq_of_lt]
    omega
  have hlast : sdu.count < sdu.count + 1 := by
    rw [UInt32.lt_iff_toNat_lt, hsucc]
    exact Nat.lt_succ_self _
  have hnext : e.rxNext ≤ (e.storeSdu sdu size).rxNext ∧
      sdu.count < (e.storeSdu sdu size).rxNext := by
    change e.rxNext ≤ (if sdu.count ≥ e.rxNext then sdu.count + 1 else e.rxNext) ∧
      sdu.count < (if sdu.count ≥ e.rxNext then sdu.count + 1 else e.rxNext)
    split_ifs with hge
    · exact ⟨UInt32.le_of_lt (UInt32.lt_of_le_of_lt hge hlast), hlast⟩
    · exact ⟨UInt32.le_refl _, UInt32.not_le.mp hge⟩
  constructor
  · exact fun x => mem_listAdd
  · exact pairwise_listAdd h.sorted hnew
  · intro x hx
    rcases mem_listAdd.mp hx with rfl | hx
    · exact hle
    · exact UInt32.le_of_lt (h.rxDeliv_lt x hx)
  · intro x hx
    rcases mem_listAdd.mp hx with rfl | hx
    · exact hnext.2
    · exact UInt32.lt_of_lt_of_le (h.lt_rxNext x hx) hnext.1
  · exact hnext.1

/-- An SDU is stored and, if it is due, delivered with those behind it. -/
def storeAndDeliver (e : PdcpEntity) (sdu : PdcpSdu) (size : ℕ) : PdcpEntity :=
  if sdu.count = e.rxDeliv then (e.storeSdu sdu size).deliverFrom e.rxDeliv
  else e.storeSdu sdu size

theorem acceptSdu_eq (e : PdcpEntity) (sdu : PdcpSdu) (size : ℕ) :
    e.acceptSdu sdu size = (e.storeAndDeliver sdu size).stopTReordering.startTReordering := rfl

/-- What the timer depends on. -/
def timerState (e : PdcpEntity) : PdcpConfig × ℕ × UInt32 × ℕ :=
  (e.cfg, e.tReorderingStart, e.rxReord, e.tCurrent)

theorem timerState_storeAndDeliver (e : PdcpEntity) (sdu : PdcpSdu) (size : ℕ) :
    (e.storeAndDeliver sdu size).timerState = e.timerState := by
  rw [storeAndDeliver]
  split_ifs
  · exact deliverFrom_frame (fun _ _ _ => rfl) (fun _ _ => rfl) _ _
  · rfl

theorem rxNext_storeAndDeliver (size : ℕ) :
    (e.storeAndDeliver sdu size).rxNext = (e.storeSdu sdu size).rxNext := by
  rw [storeAndDeliver]
  split_ifs
  · exact deliverFrom_frame (fun _ _ _ => rfl) (fun _ _ => rfl) _ _
  · rfl

/-- An SDU starts the timer: it is not due and nothing waits yet, or all that the timer waits for
comes with it, and something behind that is missing. -/
def StartsTimer (e : PdcpEntity) (sdu : PdcpSdu) : Prop :=
  if sdu.count = e.rxDeliv then
    (∀ c, e.rxDeliv < c → c < e.rxReord → sduInList c e.rxList = true) ∧
      ∃ x ∈ e.rxList, ∃ c, e.rxReord ≤ c ∧ c < x.count ∧ sduInList c e.rxList = false
  else e.tReorderingStart = 0

/-- An SDU that is due is delivered. -/
theorem Stored.delivered {e₁ : PdcpEntity} (h : Stored sdu e e₁) (hle : e.rxDeliv ≤ e.rxNext) :
    DeliveredFrom e.rxDeliv e₁ (e₁.deliverFrom e.rxDeliv) :=
  deliveredFrom h.sorted h.le_count h.lt_rxNext (UInt32.le_trans hle h.rxNext_le)

theorem Ordered.storeAndDeliver (h : e.Ordered) (hle : e.rxDeliv ≤ sdu.count)
    (hnew : ∀ x ∈ e.rxList, x.count ≠ sdu.count) (hwrap : sdu.count ≠ 0xFFFFFFFF) (size : ℕ) :
    (e.storeAndDeliver sdu size).Ordered := by
  have hstored := h.stored hle hnew hwrap size
  rw [PdcpEntity.storeAndDeliver]
  split_ifs with hdue
  · exact (hstored.delivered h.rxDeliv_le).ordered
  · refine ⟨hstored.sorted, fun x hx => ?_, hstored.lt_rxNext,
      UInt32.le_trans h.rxDeliv_le hstored.rxNext_le⟩
    rcases (hstored.mem x).mp hx with rfl | hx
    · exact UInt32.lt_of_le_of_ne hle (Ne.symm hdue)
    · exact h.rxDeliv_lt x hx

/-- Whether an SDU starts the timer can be told from the list before it comes. -/
theorem ReorderInv.startsTimer_iff (h : e.ReorderInv) (hfinite : e.FiniteTimer)
    (hle : e.rxDeliv ≤ sdu.count) (hnew : ∀ x ∈ e.rxList, x.count ≠ sdu.count)
    (hwrap : sdu.count ≠ 0xFFFFFFFF) (size : ℕ) :
    e.StartsTimer sdu ↔ (e.storeAndDeliver sdu size).rxList ≠ [] ∧
      ¬ (e.tReorderingStart ≠ 0 ∧ (e.storeAndDeliver sdu size).rxDeliv < e.rxReord) := by
  have hstored := h.stored hle hnew hwrap size
  have hsdu := (hstored.mem sdu).mpr (.inl rfl)
  rw [StartsTimer, storeAndDeliver]
  split_ifs with hdue
  · have hdelivered := hstored.delivered h.rxDeliv_le
    set e₂ := (e.storeSdu sdu size).deliverFrom e.rxDeliv
    -- a COUNT behind the SDU is delivered with it only if it was in the list
    have hmem : ∀ c, e.rxDeliv < c → c < e₂.rxDeliv → ∃ x ∈ e.rxList, x.count = c := by
      intro c hc hlt
      obtain ⟨x, hx, rfl⟩ := hdelivered.consecutive c (UInt32.le_of_lt hc) hlt
      rcases (hstored.mem x).mp hx with rfl | hx
      · exact absurd hc (hdue ▸ UInt32.lt_irrefl _)
      · exact ⟨x, hx, rfl⟩
    have hend : ∀ x ∈ e.rxList, x.count ≠ e₂.rxDeliv := by
      intro x hx heq
      rcases hdelivered.split x ((hstored.mem x).mpr (.inr hx)) with hlt | hx
      · exact UInt32.lt_irrefl _ (heq ▸ hlt)
      · exact UInt32.lt_irrefl _ (heq ▸ hdelivered.ordered.rxDeliv_lt x hx)
    have hlt : e.rxDeliv < e₂.rxDeliv := by
      rcases hdelivered.split sdu hsdu with hlt | hx
      · exact hdue ▸ hlt
      · have hlt := hdelivered.ordered.rxDeliv_lt sdu hx
        rw [hdue] at hlt
        exact absurd hlt (UInt32.not_lt.mpr hdelivered.le_rxDeliv)
    constructor
    · rintro ⟨hall, x, hx, c, hc, hcx, hmissing⟩
      have hnone : ¬ ∃ y ∈ e.rxList, y.count = c := by
        rw [← sduInList_iff, hmissing]
        exact Bool.false_ne_true
      have hreord := (h.waits (h.running hfinite (List.ne_nil_of_mem hx))).1
      constructor
      · rcases hdelivered.split x ((hstored.mem x).mpr (.inr hx)) with hxlt | hx
        · exact absurd (hmem c (UInt32.lt_of_lt_of_le hreord hc) (UInt32.lt_trans hcx hxlt)) hnone
        · exact List.ne_nil_of_mem hx
      · rintro ⟨-, hwaits⟩
        obtain ⟨y, hy, heq⟩ := sduInList_iff.mp (hall _ hlt hwaits)
        exact hend y hy heq
    · rintro ⟨hlist, hgo⟩
      obtain ⟨x, hx⟩ := List.exists_mem_of_ne_nil _ hlist
      have hxlt := hdelivered.ordered.rxDeliv_lt x hx
      have hx : x ∈ e.rxList := by
        rcases (hstored.mem x).mp (hdelivered.subset x hx) with rfl | hx
        · rw [hdue] at hxlt
          exact absurd hxlt (UInt32.not_lt.mpr hdelivered.le_rxDeliv)
        · exact hx
      have hreord : e.rxReord ≤ e₂.rxDeliv :=
        UInt32.not_lt.mp fun hwaits => hgo ⟨h.running hfinite (List.ne_nil_of_mem hx), hwaits⟩
      refine ⟨fun c hc hcr => ?_, x, hx, e₂.rxDeliv, hreord, hxlt, ?_⟩
      · exact sduInList_iff.mpr (hmem c hc (UInt32.lt_of_lt_of_le hcr hreord))
      · rw [← Bool.not_eq_true, sduInList_iff]
        rintro ⟨y, hy, heq⟩
        exact hend y hy heq
  · constructor
    · exact fun hstart => ⟨List.ne_nil_of_mem hsdu, fun hgo => hgo.1 hstart⟩
    · rintro ⟨-, hgo⟩
      by_contra hstart
      exact hgo ⟨hstart, (h.waits hstart).1⟩

/-- An SDU breaks the list: `rx_next` wraps around, or the timer starts at time 0. -/
def BreaksWith (e : PdcpEntity) (sdu : PdcpSdu) : Prop :=
  sdu.count = 0xFFFFFFFF ∧ sdu.count ≠ e.rxDeliv ∨
    e.FiniteTimer ∧ e.tCurrent = 0 ∧ e.StartsTimer sdu

/-- The last COUNT, when it is due. The counters are back at 0, and the list is empty. -/
theorem ReorderInv.acceptSdu_last (h : e.ReorderInv) (hlast : sdu.count = 0xFFFFFFFF)
    (hdue : sdu.count = e.rxDeliv) (size : ℕ) : (e.acceptSdu sdu size).ReorderInv := by
  have hmax : ∀ c : UInt32, ¬ e.rxDeliv < c := by
    intro c hc
    rw [← hdue, hlast, UInt32.lt_iff_toNat_lt] at hc
    have := c.toNat_lt
    have hlast : (0xFFFFFFFF : UInt32).toNat = 4294967295 := rfl
    omega
  have hnil : e.rxList = [] := by
    apply List.eq_nil_iff_forall_not_mem.mpr
    exact fun x hx => hmax _ (h.rxDeliv_lt x hx)
  have hzero : sdu.count + 1 = 0 := by
    rw [hlast]
    rfl
  have hdelivered : deliverConsecutive e.rxDeliv (e.storeSdu sdu size).rxList
      (e.storeSdu sdu size) = (0, (e.storeSdu sdu size).deliverHead sdu []) := by
    have hlist : (e.storeSdu sdu size).rxList = [sdu] := by
      change listAdd sdu e.rxList = [sdu]
      rw [hnil]
      rfl
    rw [hlist, deliverConsecutive, if_pos hdue.symm, ← hdue, hzero]
    rfl
  have heq : e.storeAndDeliver sdu size =
      { (e.storeSdu sdu size).deliverHead sdu [] with rxDeliv := 0 } := by
    rw [storeAndDeliver, if_pos hdue, deliverFrom, hdelivered]
  rw [acceptSdu_eq, heq]
  apply Ordered.restart
  · exact .of_nil rfl (UInt32.zero_le)
  · exact fun hne => absurd (h.waits hne).1 (hmax _)
  · exact fun _ hne => absurd rfl hne

/-- Any other SDU keeps the list right. -/
theorem ReorderInv.acceptSdu (h : e.ReorderInv) (hle : e.rxDeliv ≤ sdu.count)
    (hnew : ∀ x ∈ e.rxList, x.count ≠ sdu.count) (hbreaks : ¬ e.BreaksWith sdu) (size : ℕ) :
    (e.acceptSdu sdu size).ReorderInv := by
  rw [BreaksWith, not_or] at hbreaks
  by_cases hlast : sdu.count = 0xFFFFFFFF
  · exact h.acceptSdu_last hlast (by_contra fun hdue => hbreaks.1 ⟨hlast, hdue⟩) size
  · have hsame := timerState_storeAndDeliver e sdu size
    rw [timerState, timerState] at hsame
    simp only [Prod.mk.injEq] at hsame
    obtain ⟨hcfg, hstart, hreord, hcurrent⟩ := hsame
    rw [acceptSdu_eq]
    apply (h.storeAndDeliver hle hnew hlast size).restart
    · rw [hstart, hreord, rxNext_storeAndDeliver]
      exact fun hne => UInt32.le_trans (h.waits hne).2 (h.stored hle hnew hlast size).rxNext_le
    · rw [FiniteTimer, hcfg, hstart, hreord, hcurrent]
      intro hfinite hlist hgo htime
      exact hbreaks.2 ⟨hfinite, htime,
        (h.startsTimer_iff hfinite hle hnew hlast size).mpr ⟨hlist, hgo⟩⟩

/-- These two break it. -/
theorem ReorderInv.acceptSdu_breaks (h : e.ReorderInv) (hle : e.rxDeliv ≤ sdu.count)
    (hnew : ∀ x ∈ e.rxList, x.count ≠ sdu.count) (hbreaks : e.BreaksWith sdu) (size : ℕ) :
    ¬ (e.acceptSdu sdu size).ListInv := by
  by_cases hwrap : sdu.count = 0xFFFFFFFF ∧ sdu.count ≠ e.rxDeliv
  · -- the SDU stays in the list, and `rx_next` is 0
    intro hinv
    have hstored : e.storeAndDeliver sdu size = e.storeSdu sdu size := if_neg hwrap.2
    have hmem : sdu ∈ (e.storeSdu sdu size).rxList := mem_listAdd.mpr (.inl rfl)
    have hnext : (e.storeSdu sdu size).rxNext = 0 := by
      change (if sdu.count ≥ e.rxNext then sdu.count + 1 else e.rxNext) = 0
      rw [if_pos, hwrap.1]
      · rfl
      · rw [ge_iff_le, UInt32.le_iff_toNat_le, hwrap.1]
        exact Nat.le_of_lt_succ e.rxNext.toNat_lt
    have hlt : sdu.count < (e.storeSdu sdu size).rxNext := by
      rw [acceptSdu_eq, hstored] at hinv
      rcases restart_cases (e.storeSdu sdu size) with ⟨-, -, heq⟩ | ⟨-, -, heq⟩ | ⟨-, -, heq⟩ <;>
        rw [heq] at hinv <;> exact hinv.lt_rxNext sdu hmem
    rw [hnext] at hlt
    exact UInt32.not_lt_zero hlt
  · obtain ⟨hfinite, htime, hstarts⟩ := hbreaks.resolve_left hwrap
    have hlast : sdu.count ≠ 0xFFFFFFFF := by
      intro hlast
      have hdue : sdu.count = e.rxDeliv := by_contra fun hdue => hwrap ⟨hlast, hdue⟩
      rw [StartsTimer, if_pos hdue] at hstarts
      obtain ⟨-, x, hx, -⟩ := hstarts
      have hlt := UInt32.lt_iff_toNat_lt.mp (h.rxDeliv_lt x hx)
      rw [← hdue, hlast] at hlt
      exact absurd x.count.toNat_lt (Nat.not_lt.mpr hlt)
    have hsame := timerState_storeAndDeliver e sdu size
    rw [timerState, timerState] at hsame
    simp only [Prod.mk.injEq] at hsame
    obtain ⟨hcfg, hstart, hreord, hcurrent⟩ := hsame
    obtain ⟨hlist, hgo⟩ := (h.startsTimer_iff hfinite hle hnew hlast size).mp hstarts
    rw [acceptSdu_eq]
    apply (h.storeAndDeliver hle hnew hlast size).restart_breaks
    · rw [FiniteTimer, hcfg]
      exact hfinite
    · exact hlist
    · rw [hstart, hreord]
      exact hgo
    · rw [hcurrent]
      exact htime

/-! ### Operations -/

/-- The operations that break the list: besides an SDU, a suspension or a reestablishment that
resets the counters of a list that the timer does not cover. -/
def BreaksList (f : SecurityFunctions) (e : PdcpEntity) : PdcpOp → Prop
  | .recvPdu buffer => ∃ sdu, e.receivedSdu f buffer = some sdu ∧ e.BreaksWith sdu
  | .suspend => e.tReorderingStart = 0 ∧ e.rxList ≠ []
  | .reestablish _ => e.cfg.entityType = .drbUm ∧ e.tReorderingStart = 0 ∧ e.rxList ≠ []
  | _ => False

/-- An operation does not set a counter from outside. -/
def KeepsCounters : PdcpOp → Prop
  | .setCountDl .. | .setCountUl .. => False
  | _ => True

theorem ReorderInv.checkTReordering (h : e.ReorderInv) : e.checkTReordering.ReorderInv := by
  rw [PdcpEntity.checkTReordering]
  split
  · exact h
  · split_ifs with hrunning
    · exact h
    · rw [not_or] at hrunning
      set e₁ : PdcpEntity := { e with tReorderingStart := 0 } with he₁
      have hwaits := h.waits hrunning.1
      obtain ⟨pre, rest, ⟨hlist, rxSize, hbefore⟩, hpre, hrest⟩ :=
        deliverBefore_spec (e := e₁) e.rxReord rfl h.sorted
      change e.rxList = pre ++ rest at hlist
      have hreord : (deliverBefore e.rxReord e₁.rxList e₁).rxReord = e.rxReord :=
        deliverBefore_frame (fun _ _ _ => rfl) _ _ _
      change ((deliverBefore e.rxReord e₁.rxList e₁).deliverFrom
        (deliverBefore e.rxReord e₁.rxList e₁).rxReord).startTReordering.ReorderInv
      rw [hreord]
      have hdelivered : DeliveredFrom e.rxReord (deliverBefore e.rxReord e₁.rxList e₁)
          ((deliverBefore e.rxReord e₁.rxList e₁).deliverFrom e.rxReord) := by
        rw [hbefore]
        apply deliveredFrom
        · exact (List.pairwise_append.mp (hlist ▸ h.sorted)).2.1
        · exact hrest
        · exact fun x hx => h.lt_rxNext x (hlist ▸ List.mem_append_right _ hx)
        · exact hwaits.2
      have hsame : ((deliverBefore e.rxReord e₁.rxList e₁).deliverFrom e.rxReord).timerState =
          e₁.timerState := by
        rw [deliverFrom_frame (g := timerState) (fun _ _ _ => rfl) (fun _ _ => rfl)]
        exact deliverBefore_frame (fun _ _ _ => rfl) _ _ _
      rw [timerState, timerState] at hsame
      simp only [Prod.mk.injEq] at hsame
      obtain ⟨-, hstart, -, hcurrent⟩ := hsame
      set e₂ := (deliverBefore e.rxReord e₁.rxList e₁).deliverFrom e.rxReord
      -- the timer is stopped, so it is started as after a reception
      have hstopped : e₂.stopTReordering = e₂ := if_neg fun hne => hne.1 hstart
      rw [← hstopped]
      apply hdelivered.ordered.restart
      · exact fun hne => absurd hstart hne
      · intro _ _ _
        rw [hcurrent]
        change e.tCurrent ≠ 0
        omega

/-- A flush empties the list, or the timer was stopped already. -/
theorem flush_cases (e : PdcpEntity) :
    e.flush.tReorderingStart = 0 ∧
      (e.flush.rxList = [] ∨ e.tReorderingStart = 0 ∧ e.flush.rxList = e.rxList) := by
  rw [flush]
  split_ifs with hrunning
  · exact ⟨deliverAllSdus_frame (fun _ _ _ => rfl) _ _, .inl (rxList_deliverAllSdus rfl)⟩
  · rw [not_not] at hrunning
    exact ⟨hrunning, .inr ⟨hrunning, rfl⟩⟩

/-- The counters are reset after a flush. -/
theorem reset_iff (e e' : PdcpEntity) (hlist : e'.rxList = e.flush.rxList)
    (hstart : e'.tReorderingStart = e.flush.tReorderingStart) (hdeliv : e'.rxDeliv = 0)
    (hnext : e'.rxNext = 0) :
    (¬ (e.tReorderingStart = 0 ∧ e.rxList ≠ []) → e'.ReorderInv) ∧
      (e.tReorderingStart = 0 ∧ e.rxList ≠ [] → ¬ e'.ListInv) := by
  obtain ⟨hstopped, hcases⟩ := flush_cases e
  constructor
  · intro hclean
    have hnil : e'.rxList = [] := by
      rw [hlist]
      rcases hcases with hnil | ⟨hzero, hsame⟩
      · exact hnil
      · rw [hsame]
        exact by_contra fun hne => hclean ⟨hzero, hne⟩
    apply ReorderInv.of_nil hnil
    · rw [hdeliv, hnext]
      exact UInt32.le_refl _
    · exact fun hne => absurd (hstart.trans hstopped) hne
  · rintro ⟨hzero, hne⟩ hinv
    obtain ⟨x, hx⟩ := List.exists_mem_of_ne_nil _ hne
    have hsame : e'.rxList = e.rxList := by
      rw [hlist, flush, if_neg (not_not.mpr hzero)]
    have hlt := hinv.lt_rxNext x (hsame ▸ hx)
    rw [hnext] at hlt
    exact UInt32.not_lt_zero hlt

/-- Only the list, the counters and the timer matter. -/
theorem ReorderInv.congr (h : e.ReorderInv) (hlist : e'.rxList = e.rxList)
    (hdeliv : e'.rxDeliv = e.rxDeliv) (hnext : e'.rxNext = e.rxNext)
    (htimer : e'.timerState = e.timerState) : e'.ReorderInv := by
  rw [timerState, timerState] at htimer
  simp only [Prod.mk.injEq] at htimer
  obtain ⟨hcfg, hstart, hreord, -⟩ := htimer
  refine ⟨⟨h.toOrdered.congr hlist hdeliv hnext, ?_⟩, ?_⟩
  · rw [FiniteTimer, hcfg, hlist, hstart]
    exact h.running
  · rw [hstart, hdeliv, hreord, hnext]
    exact h.waits

theorem reorderInv_new (cfg : PdcpConfig) (parameters : SecurityParameters) :
    (new cfg parameters).ReorderInv :=
  .of_nil rfl (UInt32.le_refl _) fun hne => absurd rfl hne

/-- All other operations keep the list right. -/
theorem ReorderInv.op {f : SecurityFunctions} {op : PdcpOp} (h : e.ReorderInv)
    (hkeeps : KeepsCounters op) (hbreaks : ¬ e.BreaksList f op) : (e.op f op).ReorderInv := by
  cases op with
  | recvPdu buffer =>
    change (e.recvPdu f buffer).ReorderInv
    rw [recvPdu]
    cases hsdu : e.receivedSdu f buffer with
    | none => exact h
    | some sdu =>
      obtain ⟨hle, hnew⟩ := receivedSdu_new hsdu
      exact h.acceptSdu hle hnew (fun hb => hbreaks ⟨sdu, hsdu, hb⟩) buffer.length
  | processSdu buffer =>
    change (e.processSdu f buffer).2.ReorderInv
    rw [processSdu]
    split_ifs
    · exact h
    · exact h.congr rfl rfl rfl rfl
  | setTime now =>
    have hnow : ReorderInv { e with tCurrent := now } :=
      ⟨⟨h.toOrdered.congr rfl rfl rfl, h.running⟩, h.waits⟩
    exact hnow.checkTReordering
  | setSecurity parameters => exact h.congr rfl rfl rfl rfl
  | suspend => exact (reset_iff { e with txNext := 0 } e.suspend rfl rfl rfl rfl).1 hbreaks
  | reestablish parameters =>
    change (e.reestablish parameters).ReorderInv
    rw [reestablish]
    split
    · exact h.congr rfl rfl rfl rfl
    · next hum =>
      exact (reset_iff { e with txNext := 0 } (e.reestablishDrbUm parameters) rfl rfl rfl rfl).1
        fun hb => hbreaks ⟨hum, hb⟩
    · exact .of_nil rfl (UInt32.le_refl _) fun hne => absurd rfl hne
  | release =>
    have hlist : e.release.rxList = [] := rxList_deliverAllSdus rfl
    have hdeliv : e.release.rxDeliv = e.rxDeliv := deliverAllSdus_frame (fun _ _ _ => rfl) _ _
    have hnext : e.release.rxNext = e.rxNext := deliverAllSdus_frame (fun _ _ _ => rfl) _ _
    have hstart : e.release.tReorderingStart = e.tReorderingStart :=
      deliverAllSdus_frame (fun _ _ _ => rfl) _ _
    have hreord : e.release.rxReord = e.rxReord := deliverAllSdus_frame (fun _ _ _ => rfl) _ _
    apply ReorderInv.of_nil hlist
    · exact hdeliv ▸ hnext ▸ h.rxDeliv_le
    · rw [hstart, hdeliv, hreord, hnext]
      exact h.waits
  | setCountDl hfn sn snSize => exact hkeeps.elim
  | setCountUl hfn sn snSize => exact hkeeps.elim

theorem ReorderInv.breaks {f : SecurityFunctions} {op : PdcpOp} (h : e.ReorderInv)
    (hbreaks : e.BreaksList f op) : ¬ (e.op f op).ListInv := by
  cases op with
  | recvPdu buffer =>
    obtain ⟨sdu, hsdu, hbreaks⟩ := hbreaks
    obtain ⟨hle, hnew⟩ := receivedSdu_new hsdu
    change ¬ (e.recvPdu f buffer).ListInv
    rw [recvPdu, hsdu]
    exact h.acceptSdu_breaks hle hnew hbreaks buffer.length
  | suspend => exact (reset_iff { e with txNext := 0 } e.suspend rfl rfl rfl rfl).2 hbreaks
  | reestablish parameters =>
    change ¬ (e.reestablish parameters).ListInv
    rw [reestablish, hbreaks.1]
    exact (reset_iff { e with txNext := 0 } (e.reestablishDrbUm parameters) rfl rfl rfl rfl).2
      hbreaks.2
  | _ => exact hbreaks.elim

end PdcpEntity

/-- The list is right in every state of every run. -/
def KeepsListInv : Prop :=
  ∀ f cfg parameters (ops : List PdcpOp), (∀ op ∈ ops, PdcpEntity.KeepsCounters op) →
    ((PdcpEntity.new cfg parameters).run f ops).ListInv

/-- The list is right in all states of a run. -/
def ListInvAlong (f : SecurityFunctions) (cfg : PdcpConfig) (parameters : SecurityParameters)
    (ops : List PdcpOp) : Prop :=
  ∀ pre, pre <+: ops → ((PdcpEntity.new cfg parameters).run f pre).ListInv

/-- The list is right in all states of a run exactly when no operation of the run resets `rx_next`
while something stays in the list, or leaves something in it without starting the timer. -/
theorem listInv_iff (f : SecurityFunctions) (cfg : PdcpConfig) (parameters : SecurityParameters)
    (ops : List PdcpOp) (hops : ∀ op ∈ ops, PdcpEntity.KeepsCounters op) :
    ListInvAlong f cfg parameters ops ↔
      ∀ pre op, pre ++ [op] <+: ops →
        ¬ ((PdcpEntity.new cfg parameters).run f pre).BreaksList f op := by
  apply forall_prefix_foldl_iff (I := PdcpEntity.ReorderInv) (P := PdcpEntity.ListInv)
    (B := fun op e => e.BreaksList f op)
  · exact PdcpEntity.reorderInv_new cfg parameters
  · exact fun e h => h.toListInv
  · exact fun op hop e h => h.op (hops op hop)
  · exact fun op _ e h => h.breaks

/-- The second PDU comes first, at time 1, and the entity is suspended. -/
theorem listInv_late :
    ListInvAlong plainFunctions drbConfig noSecurity
      [.setTime 1, .recvPdu [0x80, 1, 7], .suspend] := by
  apply (listInv_iff plainFunctions drbConfig noSecurity _ _).mpr
  · intro pre op hpre
    have hmem := (List.mem_inits _ _).mpr hpre
    simp only [List.inits, List.mem_cons, List.map_cons, List.map_nil, List.append_eq_nil_iff,
      List.cons_ne_nil, and_false, false_or, List.not_mem_nil, or_false] at hmem
    rcases hmem with heq | heq | heq
    · obtain ⟨rfl, hop⟩ := List.append_inj' (show pre ++ [op] = [] ++ _ from heq) rfl
      obtain rfl := List.singleton_inj.mp hop
      exact id
    · obtain ⟨rfl, hop⟩ := List.append_inj' (show pre ++ [op] = [.setTime 1] ++ _ from heq) rfl
      obtain rfl := List.singleton_inj.mp hop
      rintro ⟨sdu, hsdu, ⟨hlast, -⟩ | ⟨-, htime, -⟩⟩
      · obtain rfl := Option.some.inj hsdu
        exact absurd hlast (by decide)
      · exact absurd htime (by decide)
    · obtain ⟨rfl, hop⟩ := List.append_inj'
        (show pre ++ [op] = [.setTime 1, .recvPdu [0x80, 1, 7]] ++ _ from heq) rfl
      obtain rfl := List.singleton_inj.mp hop
      exact fun hbreaks => absurd hbreaks.1 (by decide)
  · simp [PdcpEntity.KeepsCounters]

/-- The second PDU comes first, at time 0: it is stored, and the timer does not run. -/
theorem not_keepsListInv : ¬ KeepsListInv := by
  intro h
  have hinv := h plainFunctions drbConfig noSecurity [.recvPdu [0x80, 1, 7]]
    (by simp [PdcpEntity.KeepsCounters])
  exact hinv.running ⟨100, by decide, rfl⟩ (by decide) (by decide)

end LlmHric.Pdcp
