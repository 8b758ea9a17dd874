import LlmHric.Rlc.UmLink
import Mathlib.Data.List.Pairwise
import Mathlib.Data.List.TakeWhile

/-! Because the channel keeps the order, a new segment is the last one of the receive buffer, and
what is put together is what the buffer holds of the newest SDU. Sequence numbers tell SDUs apart as
long as the SDUs that were sent in segments and are neither in the window nor older than it are
fewer than `window_size`: an SDU whose segments are lost, or find no room in the receive buffer,
does not move the window. -/

namespace LlmHric.Rlc

/-! ### Putting together -/

/-- A segment has some bytes of an SDU. -/
structure IsPart (data : List UInt8) (pdu : Pdu) : Prop where
  bytes : pdu.data = some ((data.drop pdu.so).take pdu.size)
  stop : pdu.so + pdu.size ≤ data.length
  isLast : pdu.isLast = true → pdu.so + pdu.size = data.length

/-- When the segments reach from some place to the end of an SDU, the SDU is put together. -/
theorem reassembleFrom_full {data : List UInt8} {l : List Pdu} (hparts : ∀ pdu ∈ l, IsPart data pdu)
    (hlength : data.length ≤ nrSduMax) {n : ℕ} (hn : n ≤ data.length)
    (hfull : n = data.length ∨ fullFrom (n - 1) l = true) :
    reassembleFrom (data.take n) false l = (data, false) := by
  induction l generalizing n with
  | nil =>
    rcases hfull with rfl | hfull
    · rw [reassembleFrom, List.take_length]
    · cases hfull
  | cons pdu l ih =>
    rw [List.forall_mem_cons] at hparts
    obtain ⟨⟨hbytes, hstop, hlast⟩, hparts⟩ := hparts
    have hso : pdu.so ≤ n := by
      rcases hfull with rfl | hfull
      · omega
      · rw [fullFrom] at hfull
        split_ifs at hfull <;> omega
    have hlen : (data.take n).length = n := List.length_take_of_le hn
    rw [reassembleFrom, hlen]
    have hbad : (false || decide (pdu.so > n) ||
        decide ((n : ℤ) + (pdu.size - (n - pdu.so)) > nrSduMax)) = false := by
      simp only [Bool.false_or, Bool.or_eq_false_iff, decide_eq_false_iff_not]
      omega
    rw [hbad]
    by_cases hnew : (pdu.size : ℤ) - (n - pdu.so) > 0
    · rw [if_pos (by simpa using hnew), hbytes]
      -- the bytes behind the first `n` ones are appended
      obtain ⟨k, hk⟩ : ∃ k, pdu.so + pdu.size = n + k := Nat.exists_eq_add_of_le (by omega)
      have htoNat : ((pdu.size : ℤ) - (n - pdu.so)).toNat = k := by omega
      have hskip : pdu.so + (n - pdu.so) = n := by omega
      have hrest : pdu.size - (n - pdu.so) = k := by omega
      have htake : data.take n ++ ((((data.drop pdu.so).take pdu.size).drop (n - pdu.so)).take k) =
          data.take (n + k) := by
        rw [List.drop_take, List.drop_drop, hskip, hrest, List.take_take, Nat.min_self,
          List.take_add]
      rw [Option.getD_some, htoNat, htake]
      refine ih hparts (by omega) ?_
      rcases hfull with hfull | hfull
      · exact absurd hfull (by omega)
      · rw [fullFrom, if_neg (by omega)] at hfull
        split_ifs at hfull with hlast'
        · have := hlast hlast'
          exact .inl (by omega)
        · rw [show (pdu.so : ℤ) + pdu.size - 1 = ((n + k : ℕ) : ℤ) - 1 by omega] at hfull
          exact .inr hfull
        · omega
    · rw [if_neg (by simpa using hnew)]
      -- the bytes are there already
      refine ih hparts hn ?_
      rcases hfull with hfull | hfull
      · exact .inl hfull
      · rw [fullFrom, if_neg (by omega)] at hfull
        split_ifs at hfull with hlast'
        · have := hlast hlast'
          exact .inl (by omega)
        · omega
        · exact .inr hfull

/-- A list that ends with a segment of an SDU has one that is the last of its SDU. -/
theorem exists_isLast_of_fullFrom {lastByte : ℤ} {l : List Pdu} (h : fullFrom lastByte l = true) :
    ∃ pdu ∈ l, pdu.isLast = true := by
  induction l generalizing lastByte with
  | nil => cases h
  | cons pdu l ih =>
    rw [fullFrom] at h
    split_ifs at h with hso hlast
    · exact ⟨pdu, List.mem_cons_self .., hlast⟩
    all_goals
      obtain ⟨pdu', hmem, hlast'⟩ := ih h
      exact ⟨pdu', List.mem_cons_of_mem _ hmem, hlast'⟩

section Suffix

variable {α : Type*} {p : α → Bool} {l : List α}

/-- From the first element of some kind on, all elements are of that kind. -/
theorem dropWhile_eq_filter (h : l.Pairwise fun a b => p a = true → p b = true) :
    l.dropWhile (fun a => !p a) = l.filter p := by
  induction l with
  | nil => rfl
  | cons a l ih =>
    rw [List.pairwise_cons] at h
    rw [List.dropWhile_cons, List.filter_cons]
    cases ha : p a with
    | true =>
      have hall : l.filter p = l := List.filter_eq_self.mpr fun b hb => h.1 b hb ha
      rw [hall]
      rfl
    | false => exact ih h.2

theorem takeWhile_filter : (l.filter p).takeWhile p = l.filter p :=
  List.takeWhile_eq_self_iff.mpr fun _ ha => (List.mem_filter.mp ha).2

/-- The elements of that kind are replaced. -/
theorem replace_filter {f : α → α} (h : l.Pairwise fun a b => p a = true → p b = true) :
    l.takeWhile (fun a => !p a) ++ (l.filter p).map f = l.map fun a => if p a then f a else a := by
  induction l with
  | nil => rfl
  | cons a l ih =>
    rw [List.pairwise_cons] at h
    rw [List.takeWhile_cons, List.filter_cons, List.map_cons]
    cases ha : p a with
    | true =>
      have hall : ∀ b ∈ l, p b = true := fun b hb => h.1 b hb ha
      have hmap : l.map f = l.map fun b => if p b then f b else b :=
        List.map_congr_left fun b hb => by rw [if_pos (hall b hb)]
      rw [List.filter_eq_self.mpr hall]
      exact congrArg (f a :: ·) hmap
    | false => exact congrArg _ (ih h.2)

end Suffix

namespace UmFlight

variable {cfg cfg' : UmConfig} {f : UmFlight}

/-! ### What arrives -/

theorem WellFormed.congr (h : f.WellFormed cfg) (hcfg : cfg'.snFieldLength = cfg.snFieldLength) :
    f.WellFormed cfg' := by
  refine ⟨h.pdu.trans ?_, h.isFirst, h.size, h.stop, h.isLast, h.length⟩
  rw [UmEntity.pduBytes, UmEntity.pduBytes, UmEntity.headerBits, UmEntity.headerBits,
    UmConfig.snModulus, UmConfig.snModulus, hcfg]

/-- The segment in a PDU. -/
def toPdu (cfg : UmConfig) (f : UmFlight) : Pdu :=
  newPdu (f.number % cfg.snModulus) f.segment.so f.segment.isFirst f.segment.isLast
    (UmEntity.sliceOf f.data f.segment)

theorem WellFormed.parsePdu_segment (h : f.WellFormed cfg) (hwhole : f.isWhole = false) :
    UmEntity.parsePdu cfg f.pdu = some (.segment (f.toPdu cfg)) := by
  have hpos := h.size hwhole
  have hstop := h.stop
  have hlength := h.length
  have hmax : nrSduMax < 2 ^ 16 := by decide
  have hdata : UmEntity.sliceOf f.data f.segment ≠ [] := by
    rw [← List.length_pos_iff, UmEntity.sliceOf, List.length_take, List.length_drop]
    omega
  rw [h.pdu]
  refine UmEntity.parsePdu_segment hwhole h.isFirst (by omega) (Nat.mod_lt _ ?_) hdata
  rw [UmConfig.snModulus, Nat.one_shiftLeft]
  exact Nat.two_pow_pos _

theorem WellFormed.parsePdu_whole (h : f.WellFormed cfg) (hwhole : f.isWhole = true) :
    UmEntity.parsePdu cfg f.pdu = if f.data = [] then none else some (.whole f.data) := by
  rw [isWhole, Bool.and_eq_true] at hwhole
  have hso := h.isFirst.mp hwhole.1
  have hstop := h.isLast hwhole.2
  rw [hso, Nat.zero_add] at hstop
  have hslice : UmEntity.sliceOf f.data f.segment = f.data := by
    rw [UmEntity.sliceOf, hso, List.drop_zero, hstop, List.take_length]
  rw [h.pdu, UmEntity.parsePdu_whole hwhole.1 hwhole.2, hslice]

/-- The segments have their bytes. -/
theorem WellFormed.isPart (h : f.WellFormed cfg) : IsPart f.data (f.toPdu cfg) := by
  have hlength : (UmEntity.sliceOf f.data f.segment).length = f.segment.size := by
    have := h.stop
    rw [UmEntity.sliceOf, List.length_take, List.length_drop]
    omega
  refine ⟨?_, ?_, fun hlast => ?_⟩
  · change some _ =
      some ((f.data.drop f.segment.so).take (UmEntity.sliceOf f.data f.segment).length)
    rw [hlength]
    rfl
  · change f.segment.so + (UmEntity.sliceOf f.data f.segment).length ≤ f.data.length
    rw [hlength]
    exact h.stop
  · change f.segment.so + (UmEntity.sliceOf f.data f.segment).length = f.data.length
    rw [hlength]
    exact h.isLast hlast

/-- The segment in the receive buffer; its data is gone once the SDU has been delivered. -/
def view (cfg : UmConfig) (completed : ℕ → Bool) (f : UmFlight) : Pdu :=
  if completed f.number then UmEntity.processed (f.toPdu cfg) else f.toPdu cfg

theorem view_sn (cfg : UmConfig) (completed : ℕ → Bool) (f : UmFlight) :
    (f.view cfg completed).sn = f.number % cfg.snModulus := by
  rw [view]
  split_ifs <;> rfl

theorem view_so (cfg : UmConfig) (completed : ℕ → Bool) (f : UmFlight) :
    (f.view cfg completed).so = f.segment.so := by
  rw [view]
  split_ifs <;> rfl

end UmFlight

namespace UmEntity

variable {e e' : UmEntity} {arrived held : List UmFlight} {f g : UmFlight} {kept n : ℕ}

/-! ### The window -/

theorem snModulus_pos (cfg : UmConfig) : 0 < cfg.snModulus := by
  rw [UmConfig.snModulus, Nat.one_shiftLeft]
  exact Nat.two_pow_pos _

theorem snModulus_eq (cfg : UmConfig) : cfg.snModulus = 2 * cfg.windowSize := by
  rw [UmConfig.windowSize, UmConfig.snModulus]
  cases cfg.snFieldLength <;> rfl

/-- A number in the reassembly window, or at its end. -/
def InWindow (e : UmEntity) (kept sn : ℕ) : Prop :=
  ∃ n ≤ kept, kept ≤ n + e.cfg.windowSize ∧ sn = n % e.cfg.snModulus

/-- How far a number is behind the beginning of the reassembly window. -/
theorem modulusRx_mod (hhighest : e.rxNextHighest = kept % e.cfg.snModulus)
    (hlow : kept ≤ n + e.cfg.windowSize) (hhigh : n < kept + e.cfg.windowSize) :
    e.modulusRx (n % e.cfg.snModulus) = n + e.cfg.windowSize - kept := by
  rw [modulusRx, hhighest]
  rw [UmConfig.windowSize] at hlow hhigh ⊢
  rw [UmConfig.snModulus] at hlow hhigh ⊢
  cases hlength : e.cfg.snFieldLength <;>
    simp only [hlength, UmSnFieldLength.bits, Nat.one_shiftLeft, Nat.reducePow,
      Nat.reduceDiv] at hlow hhigh ⊢ <;> split_ifs <;> omega

/-- Numbers of the window are told apart by their sequence numbers. -/
theorem eq_of_mod_eq_of_window {m n : ℕ} (hmod : m % e.cfg.snModulus = n % e.cfg.snModulus)
    (hm : kept ≤ m + e.cfg.windowSize) (hm' : m < kept + e.cfg.windowSize)
    (hn : kept ≤ n + e.cfg.windowSize) (hn' : n < kept + e.cfg.windowSize) : m = n := by
  have hmodulus := snModulus_eq e.cfg
  exact Window.eq_of_mod_eq hmod (by omega) (by omega)

theorem windowSize_pos (cfg : UmConfig) : 0 < cfg.windowSize := by
  have hmodulus := snModulus_eq cfg
  have hpos := snModulus_pos cfg
  omega

theorem nextSn_eq (e : UmEntity) (n : ℕ) :
    e.nextSn (n % e.cfg.snModulus) = (n + 1) % e.cfg.snModulus := by
  rw [nextSn, Nat.mod_add_mod]

/-- The segments of the receive buffer are in the reassembly window. -/
def ListInWindow (e : UmEntity) (kept : ℕ) : Prop :=
  ∀ pdu ∈ e.rxList, ∃ n < kept, kept ≤ n + e.cfg.windowSize ∧ pdu.sn = n % e.cfg.snModulus

theorem mem_of_sduDelivered {sn : ℕ} (h : e.sduDelivered sn = true) :
    ∃ pdu ∈ e.rxList, pdu.sn = sn := by
  rw [sduDelivered] at h
  cases hl : segmentsOf sn e.rxList with
  | nil =>
    rw [hl] at h
    cases h
  | cons pdu l =>
    have hmem : pdu ∈ segmentsOf sn e.rxList := by
      rw [hl]
      exact List.mem_cons_self ..
    have hsn := List.mem_takeWhile_imp hmem
    exact ⟨pdu, (List.dropWhile_sublist _).subset ((List.takeWhile_sublist _).subset hmem),
      by simpa using hsn⟩

/-- The loops over delivered SDUs stay in the window. -/
theorem ListInWindow.skipDelivered {fuel sn r : ℕ} (h : e.ListInWindow kept)
    (hsn : e.InWindow kept sn) (hskip : e.skipDelivered fuel sn = some r) :
    e.InWindow kept r := by
  induction fuel generalizing sn with
  | zero => cases hskip
  | succ fuel ih =>
    rw [UmEntity.skipDelivered] at hskip
    split_ifs at hskip with hdelivered
    · refine ih ?_ hskip
      obtain ⟨pdu, hpdu, hpduSn⟩ := mem_of_sduDelivered hdelivered
      obtain ⟨m, hm, hm', hmod⟩ := h pdu hpdu
      obtain ⟨n, hn, hn', rfl⟩ := hsn
      have hpos := windowSize_pos e.cfg
      have heq : m = n := eq_of_mod_eq_of_window (hmod.symm.trans hpduSn) hm' (by omega) hn'
        (by omega)
      exact ⟨n + 1, by omega, by omega, e.nextSn_eq n⟩
    · obtain rfl := Option.some.inj hskip
      exact hsn

/-! ### The newest SDU -/

theorem segmentsOf_eq_filter {sn : ℕ} {l : List Pdu}
    (h : l.Pairwise fun a b => (a.sn == sn) = true → (b.sn == sn) = true) :
    segmentsOf sn l = l.filter (·.sn == sn) := by
  have hdrop : l.dropWhile (·.sn != sn) = l.filter (·.sn == sn) := dropWhile_eq_filter h
  rw [segmentsOf, hdrop, takeWhile_filter]

theorem processSegments_eq_map {sn : ℕ} {l : List Pdu}
    (h : l.Pairwise fun a b => (a.sn == sn) = true → (b.sn == sn) = true) :
    processSegments sn l = l.map fun pdu => if pdu.sn == sn then processed pdu else pdu := by
  have hdrop : l.dropWhile (·.sn != sn) = l.filter (·.sn == sn) := dropWhile_eq_filter h
  have hrest : (l.filter (·.sn == sn)).dropWhile (·.sn == sn) = [] :=
    List.dropWhile_eq_nil_iff.mpr fun _ hpdu => (List.mem_filter.mp hpdu).2
  rw [processSegments, segmentsOf_eq_filter h, hdrop, hrest, List.append_nil]
  exact replace_filter h

/-- What arrived was sent in order. -/
structure Arrivals (cfg : UmConfig) (arrived : List UmFlight) : Prop where
  order : arrived.Pairwise UmFlight.Before
  data : ∀ f ∈ arrived, ∀ g ∈ arrived, f.segment.sdu = g.segment.sdu → f.data = g.data
  wellFormed : ∀ f ∈ arrived, f.WellFormed cfg

theorem Arrivals.sublist {cfg : UmConfig} {arrived' : List UmFlight} (h : Arrivals cfg arrived)
    (hsublist : arrived'.Sublist arrived) : Arrivals cfg arrived' where
  order := h.order.sublist hsublist
  data := fun f hf g hg => h.data f (hsublist.subset hf) g (hsublist.subset hg)
  wellFormed := fun f hf => h.wellFormed f (hsublist.subset hf)

theorem Arrivals.sdu_eq {cfg : UmConfig} (h : Arrivals cfg arrived) (hf : f ∈ arrived)
    (hg : g ∈ arrived) (hf' : f.isWhole = false) (hg' : g.isWhole = false)
    (hnumber : f.number = g.number) : f.segment.sdu = g.segment.sdu := by
  let SameSdu : UmFlight → UmFlight → Prop := fun f g =>
    f.isWhole = false → g.isWhole = false → f.number = g.number → f.segment.sdu = g.segment.sdu
  have hsymm : Std.Symm SameSdu :=
    ⟨fun f g hfg hg' hf' hnumber => (hfg hf' hg' hnumber.symm).symm⟩
  have hall : arrived.Pairwise SameSdu := by
    refine h.order.imp fun {f g} hbefore hf' hg' hnumber => ?_
    rcases hbefore.number hf' hg' with hlt | hsame
    · omega
    · exact hsame.2.1
  exact hall.forall_of_forall (fun _ _ _ _ _ => rfl) hf hg hf' hg' hnumber

/-- The receive buffer holds segments that arrived, of SDUs in the reassembly window, which ends
behind the last SDU of which a segment found room. -/
structure RecvInv (e : UmEntity) (arrived held : List UmFlight) (kept : ℕ) : Prop where
  highest : e.rxNextHighest = kept % e.cfg.snModulus
  reassembly : e.InWindow kept e.rxNextReassembly
  list : ∃ completed : ℕ → Bool, e.rxList = held.map (UmFlight.view e.cfg completed) ∧
    ∀ n, completed n = true → ∃ g ∈ arrived, g.isWhole = false ∧ g.number = n ∧
      g.segment.isLast = true
  sublist : held.Sublist arrived
  segment : ∀ g ∈ held, g.isWhole = false
  window : ∀ g ∈ held, g.number < kept ∧ kept ≤ g.number + e.cfg.windowSize

theorem listInWindow_of_held {completed : ℕ → Bool}
    (hlist : e.rxList = held.map (UmFlight.view e.cfg completed))
    (hwindow : ∀ g ∈ held, g.number < kept ∧ kept ≤ g.number + e.cfg.windowSize) :
    e.ListInWindow kept := by
  intro pdu hpdu
  rw [hlist] at hpdu
  obtain ⟨g, hg, rfl⟩ := List.mem_map.mp hpdu
  obtain ⟨hlt, hle⟩ := hwindow g hg
  exact ⟨g.number, hlt, hle, g.view_sn _ _⟩

/-- The receive buffer with a segment of the newest SDU in it. -/
structure Newest (e : UmEntity) (held : List UmFlight) (completed : ℕ → Bool) (kept : ℕ)
    (f : UmFlight) : Prop where
  list : e.rxList = held.map (UmFlight.view e.cfg completed)
  mem : f ∈ held
  le : ∀ g ∈ held, g.number ≤ f.number
  order : held.Pairwise fun g g' => g.number ≤ g'.number
  window : ∀ g ∈ held, kept ≤ g.number + e.cfg.windowSize ∧ g.number < kept + e.cfg.windowSize

namespace Newest

variable {completed : ℕ → Bool}

/-- A segment is of the newest SDU. -/
theorem sn_iff (h : e.Newest held completed kept f) (hg : g ∈ held) :
    ((g.view e.cfg completed).sn == f.number % e.cfg.snModulus) = (g.number == f.number) := by
  obtain ⟨hlow, hhigh⟩ := h.window g hg
  obtain ⟨hlow', hhigh'⟩ := h.window f h.mem
  rw [UmFlight.view_sn, Bool.eq_iff_iff, beq_iff_eq, beq_iff_eq]
  constructor
  · intro hmod
    exact eq_of_mod_eq_of_window hmod hlow hhigh hlow' hhigh'
  · intro heq
    rw [heq]

theorem pairwise (h : e.Newest held completed kept f) : held.Pairwise fun g g' =>
    ((g.view e.cfg completed).sn == f.number % e.cfg.snModulus) = true →
      ((g'.view e.cfg completed).sn == f.number % e.cfg.snModulus) = true := by
  refine h.order.imp_of_mem fun {g g'} hg hg' hle => ?_
  rw [h.sn_iff hg, h.sn_iff hg', beq_iff_eq, beq_iff_eq]
  have := h.le g' hg'
  omega

theorem pairwise_rxList (h : e.Newest held completed kept f) : e.rxList.Pairwise fun a b =>
    (a.sn == f.number % e.cfg.snModulus) = true →
      (b.sn == f.number % e.cfg.snModulus) = true := by
  rw [h.list, List.pairwise_map]
  exact h.pairwise

/-- The segments of the newest SDU. -/
theorem segmentsOf_eq (h : e.Newest held completed kept f) :
    segmentsOf (f.number % e.cfg.snModulus) e.rxList =
      (held.filter fun g => g.number == f.number).map (UmFlight.view e.cfg completed) := by
  rw [segmentsOf_eq_filter h.pairwise_rxList, h.list, List.filter_map]
  exact congrArg _ (List.filter_congr fun g hg => h.sn_iff hg)

/-- The PDUs that brought the segments of the newest SDU. -/
theorem own_eq (h : e.Newest held completed kept f) :
    (((held.zip e.rxList).dropWhile (·.2.sn != f.number % e.cfg.snModulus)).takeWhile
      (·.2.sn == f.number % e.cfg.snModulus)).map (·.1) =
        held.filter fun g => g.number == f.number := by
  have hzip : held.zip e.rxList = held.map fun g => (g, g.view e.cfg completed) := by
    rw [h.list]
    exact List.map_prod_left_eq_zip.symm
  have hdrop : held.dropWhile (fun g => (g.view e.cfg completed).sn != f.number % e.cfg.snModulus) =
      held.filter fun g => (g.view e.cfg completed).sn == f.number % e.cfg.snModulus :=
    dropWhile_eq_filter h.pairwise
  rw [hzip, List.dropWhile_map, List.takeWhile_map, List.map_map]
  refine (List.map_id _).trans ?_
  refine (congrArg (List.takeWhile _) hdrop).trans (takeWhile_filter.trans ?_)
  exact List.filter_congr fun g hg => h.sn_iff hg

theorem processSegments_eq (h : e.Newest held completed kept f) :
    processSegments (f.number % e.cfg.snModulus) e.rxList =
      held.map (UmFlight.view e.cfg (Function.update completed f.number true)) := by
  rw [processSegments_eq_map h.pairwise_rxList, h.list, List.map_map]
  refine List.map_congr_left fun g hg => ?_
  rw [Function.comp_apply, h.sn_iff hg]
  by_cases heq : g.number = f.number
  · rw [if_pos (beq_iff_eq.mpr heq), UmFlight.view, UmFlight.view, heq, Function.update_self,
      if_pos rfl]
    split_ifs <;> rfl
  · rw [if_neg (fun h => heq (beq_iff_eq.mp h)), UmFlight.view, UmFlight.view,
      Function.update_of_ne heq]

/-- The newest SDU is put together as it was submitted, once its last segment is there. -/
theorem reassembleFrom_eq (h : e.Newest held completed kept f) (ha : Arrivals e.cfg arrived)
    (hsublist : held.Sublist arrived) (hsegment : ∀ g ∈ held, g.isWhole = false)
    (hfresh : completed f.number = false) (hfull : e.sduFull (f.number % e.cfg.snModulus) = true) :
    reassembleFrom [] false (segmentsOf (f.number % e.cfg.snModulus) e.rxList) = (f.data, false) ∧
      ∃ g ∈ held, g.number = f.number ∧ g.segment.isLast = true := by
  rw [UmEntity.sduFull, Rlc.sduFull, Bool.and_eq_true] at hfull
  rw [h.segmentsOf_eq] at hfull ⊢
  have hown : ∀ pdu ∈ (held.filter fun g => g.number == f.number).map
      (UmFlight.view e.cfg completed), ∃ g ∈ held, g.number = f.number ∧ pdu = g.toPdu e.cfg := by
    intro pdu hpdu
    obtain ⟨g, hg, rfl⟩ := List.mem_map.mp hpdu
    rw [List.mem_filter, beq_iff_eq] at hg
    refine ⟨g, hg.1, hg.2, ?_⟩
    rw [UmFlight.view, hg.2, hfresh, if_neg Bool.false_ne_true]
  refine ⟨?_, ?_⟩
  · have hf := hsublist.subset h.mem
    refine reassembleFrom_full (n := 0) (fun pdu hpdu => ?_) (ha.wellFormed f hf).length
      (Nat.zero_le _) (.inr hfull.2)
    obtain ⟨g, hg, hnumber, rfl⟩ := hown pdu hpdu
    have hg' := hsublist.subset hg
    have hsdu := ha.sdu_eq hg' hf (hsegment g hg) (hsegment f h.mem) hnumber
    rw [← ha.data g hg' f hf hsdu]
    exact (ha.wellFormed g hg').isPart
  · obtain ⟨pdu, hpdu, hlast⟩ := exists_isLast_of_fullFrom hfull.2
    obtain ⟨g, hg, hnumber, rfl⟩ := hown pdu hpdu
    exact ⟨g, hg, hnumber, hlast⟩

end Newest

/-! ### Reception actions -/

/-- What `reception_actions` and the timer change is the list, the window and the timer. -/
structure SameRx (e e' : UmEntity) : Prop where
  cfg : e'.cfg = e.cfg
  tReassemblyStart : e'.tReassemblyStart = e.tReassemblyStart
  rxTimerTrigger : e'.rxTimerTrigger = e.rxTimerTrigger

theorem RecvInv.completeSdu {completed : ℕ → Bool} (h : e.RecvInv arrived held kept)
    (ha : Arrivals e.cfg arrived) (hnew : e.Newest held completed kept f)
    (hcompleted : ∀ n, completed n = true → ∃ g ∈ arrived, g.isWhole = false ∧ g.number = n ∧
      g.segment.isLast = true)
    (hfresh : completed f.number = false) (hfull : e.sduFull (f.number % e.cfg.snModulus) = true)
    (he : e.completeSdu (f.number % e.cfg.snModulus) = some e') :
    e'.RecvInv arrived held kept ∧ e.SameRx e' ∧ e'.delivered = e.delivered ++ [f.data] := by
  obtain ⟨hdata, hlast⟩ := hnew.reassembleFrom_eq ha h.sublist h.segment hfresh hfull
  have hinv : ∀ e₁ : UmEntity, e₁.cfg = e.cfg → e₁.rxNextHighest = e.rxNextHighest →
      e.InWindow kept e₁.rxNextReassembly →
      e₁.rxList = processSegments (f.number % e.cfg.snModulus) e.rxList →
      e₁.RecvInv arrived held kept := by
    intro e₁ hcfg hhighest hreassembly hlist
    refine ⟨by rw [hhighest, h.highest, hcfg], by rwa [InWindow, hcfg], ?_, h.sublist, h.segment,
      by rw [hcfg]; exact h.window⟩
    refine ⟨Function.update completed f.number true, ?_, fun n hn => ?_⟩
    · rw [hlist, hnew.processSegments_eq, hcfg]
    · by_cases heq : n = f.number
      · obtain ⟨g, hg, hnumber, hlast⟩ := hlast
        exact ⟨g, h.sublist.subset hg, h.segment g hg, hnumber.trans heq.symm, hlast⟩
      · rw [Function.update_of_ne heq] at hn
        exact hcompleted n hn
  set e₁ : UmEntity := UmEntity.deliver { e with
    rxList := processSegments (f.number % e.cfg.snModulus) e.rxList
    rxSize := e.rxSize - pduSizes (segmentsOf (f.number % e.cfg.snModulus) e.rxList) } f.data
  have hstep : e.reassembleAndDeliver (f.number % e.cfg.snModulus) = e₁ := by
    rw [reassembleAndDeliver, hdata]
  have hinv₁ : e₁.RecvInv arrived held kept := hinv e₁ rfl rfl h.reassembly rfl
  rw [UmEntity.completeSdu, hstep] at he
  split_ifs at he with hnext
  · obtain ⟨r, hr, rfl⟩ := Option.map_eq_some_iff.mp he
    obtain ⟨completed', hlist', -⟩ := hinv₁.list
    have hr' := (listInWindow_of_held hlist' hinv₁.window).skipDelivered hinv₁.reassembly hr
    exact ⟨hinv _ rfl rfl hr' rfl, ⟨rfl, rfl, rfl⟩, rfl⟩
  · obtain rfl := Option.some.inj he
    exact ⟨hinv₁, ⟨rfl, rfl, rfl⟩, rfl⟩

/-- What is behind the reassembly window, by less than `window_size`, counts as ahead of it. -/
theorem le_modulusRx_iff (hhighest : e.rxNextHighest = kept % e.cfg.snModulus) (hn : n < kept)
    (hbehind : kept ≤ n + e.cfg.snModulus) :
    e.modulusRx e.rxNextHighest ≤ e.modulusRx (n % e.cfg.snModulus) ↔
      n + e.cfg.windowSize < kept := by
  have hpos := windowSize_pos e.cfg
  have hmodulus := snModulus_eq e.cfg
  have hend : e.modulusRx e.rxNextHighest = e.cfg.windowSize := by
    rw [hhighest, modulusRx_mod hhighest (by omega) (by omega)]
    omega
  rw [hend]
  by_cases hle : kept ≤ n + e.cfg.windowSize
  · rw [modulusRx_mod hhighest hle (by omega)]
    omega
  · have hround : n % e.cfg.snModulus = (n + e.cfg.snModulus) % e.cfg.snModulus :=
      (Nat.add_mod_right _ _).symm
    rw [hround, modulusRx_mod hhighest (by omega) (by omega)]
    omega

/-- The window moves to the end of the newest SDU, and SDUs before the window are given up. -/
theorem Newest.moveWindow {completed : ℕ → Bool} (hnew : e.Newest held completed kept f)
    (hhighest : e.rxNextHighest = kept % e.cfg.snModulus)
    (hreassembly : e.InWindow kept e.rxNextReassembly) (hkept : kept ≤ f.number)
    (hcompleted : ∀ n, completed n = true → ∃ g ∈ arrived, g.isWhole = false ∧ g.number = n ∧
      g.segment.isLast = true)
    (hsublist : held.Sublist arrived) (hsegment : ∀ g ∈ held, g.isWhole = false)
    (he : e.moveWindow (f.number % e.cfg.snModulus) = some e') :
    (∃ held', held' <:+ held ∧ e'.RecvInv arrived held' (f.number + 1)) ∧ e.SameRx e' ∧
      e'.delivered = e.delivered := by
  have hmodulus := snModulus_eq e.cfg
  obtain ⟨-, hhigh⟩ := hnew.window f hnew.mem
  have hahead : e.modulusRx (f.number % e.cfg.snModulus) ≥ e.modulusRx e.rxNextHighest := by
    have hpos := windowSize_pos e.cfg
    rw [hhighest, modulusRx_mod hhighest (by omega) hhigh,
      modulusRx_mod hhighest (by omega) (by omega)]
    omega
  rw [UmEntity.moveWindow, if_pos hahead, e.nextSn_eq] at he
  set e₁ : UmEntity := { e with rxNextHighest := (f.number + 1) % e.cfg.snModulus } with he₁
  have hhighest₁ : e₁.rxNextHighest = (f.number + 1) % e₁.cfg.snModulus := rfl
  -- the PDUs that brought the segments that stay
  set held' := held.filter fun g => !decide (e₁.modulusRx e₁.rxNextHighest ≤
    e₁.modulusRx (g.view e.cfg completed).sn) with hheld'
  have houtside : ∀ g ∈ held, e₁.modulusRx e₁.rxNextHighest ≤
      e₁.modulusRx (g.view e.cfg completed).sn ↔ g.number + e.cfg.windowSize < f.number + 1 := by
    intro g hg
    obtain ⟨hlow, -⟩ := hnew.window g hg
    have hle := hnew.le g hg
    rw [UmFlight.view_sn]
    exact le_modulusRx_iff hhighest₁ (by omega) (by change _ ≤ g.number + e.cfg.snModulus; omega)
  have hdrop : held.dropWhile (fun g => decide (e₁.modulusRx e₁.rxNextHighest ≤
      e₁.modulusRx (g.view e.cfg completed).sn)) = held' := by
    rw [hheld', ← dropWhile_eq_filter]
    · simp only [Bool.not_not]
    · refine hnew.order.imp_of_mem fun {g g'} hg hg' hle => ?_
      rw [Bool.not_eq_true', Bool.not_eq_true', decide_eq_false_iff_not, decide_eq_false_iff_not,
        houtside g hg, houtside g' hg']
      omega
  have hlist' : e₁.discardOutside.rxList = held'.map (UmFlight.view e.cfg completed) := by
    change e.rxList.dropWhile _ = _
    rw [hnew.list, List.dropWhile_map, ← hdrop]
    rfl
  have hwindow' : ∀ g ∈ held', g.number < f.number + 1 ∧
      f.number + 1 ≤ g.number + e.cfg.windowSize := by
    intro g hg
    rw [hheld', List.mem_filter, Bool.not_eq_true', decide_eq_false_iff_not] at hg
    have hle := hnew.le g hg.1
    rw [houtside g hg.1] at hg
    omega
  have hsuffix : held' <:+ held := hdrop ▸ List.dropWhile_suffix _
  have hinv : ∀ r, e.InWindow (f.number + 1) r →
      RecvInv { e₁.discardOutside with rxNextReassembly := r } arrived held' (f.number + 1) :=
    fun r hr => ⟨hhighest₁, hr, ⟨completed, hlist', hcompleted⟩, hsuffix.sublist.trans hsublist,
      fun g hg => hsegment g (hsuffix.subset hg), hwindow'⟩
  obtain ⟨n, hn, hn', hmod⟩ := hreassembly
  have hpassed : e₁.discardOutside.modulusRx e₁.discardOutside.rxNextReassembly ≥
      e₁.discardOutside.modulusRx e₁.discardOutside.rxNextHighest ↔
        n + e.cfg.windowSize < f.number + 1 := by
    change e₁.modulusRx e₁.rxNextHighest ≤ e₁.modulusRx e.rxNextReassembly ↔ _
    rw [hmod]
    exact le_modulusRx_iff hhighest₁ (by omega) (by change _ ≤ n + e.cfg.snModulus; omega)
  rw [updateNextReassembly] at he
  by_cases hcase : n + e.cfg.windowSize < f.number + 1
  · rw [if_pos (hpassed.mpr hcase)] at he
    obtain ⟨r, hr, rfl⟩ := Option.map_eq_some_iff.mp he
    -- the search starts at the beginning of the window
    have hstart : e.InWindow (f.number + 1) ((e₁.discardOutside.rxNextHighest +
        e.cfg.snModulus - e.cfg.windowSize) % e.cfg.snModulus) := by
      refine ⟨f.number + 1 - e.cfg.windowSize, by omega, by omega, ?_⟩
      have hback : (f.number + 1) % e.cfg.snModulus + e.cfg.snModulus - e.cfg.windowSize =
          (f.number + 1) % e.cfg.snModulus + e.cfg.windowSize := by omega
      have hround : f.number + 1 + e.cfg.windowSize =
          f.number + 1 - e.cfg.windowSize + e.cfg.snModulus := by omega
      change ((f.number + 1) % e.cfg.snModulus + e.cfg.snModulus - e.cfg.windowSize) %
        e.cfg.snModulus = _
      rw [hback, Nat.mod_add_mod, hround, Nat.add_mod_right]
    have hr' := (listInWindow_of_held (e := e₁.discardOutside) hlist' hwindow').skipDelivered
      hstart hr
    exact ⟨⟨held', hsuffix, hinv r hr'⟩, ⟨rfl, rfl, rfl⟩, rfl⟩
  · rw [if_neg (fun h => hcase (hpassed.mp h))] at he
    obtain rfl := Option.some.inj he
    exact ⟨⟨held', hsuffix, hinv _ ⟨n, by omega, by omega, hmod⟩⟩, ⟨rfl, rfl, rfl⟩, rfl⟩

theorem RecvInv.length_eq (h : e.RecvInv arrived held kept) : e.rxList.length = held.length := by
  obtain ⟨completed, hlist, -⟩ := h.list
  rw [hlist, List.length_map]

/-- More PDUs arrive. -/
theorem RecvInv.mono (h : e.RecvInv arrived held kept) (fs : List UmFlight) :
    e.RecvInv (arrived ++ fs) held kept := by
  obtain ⟨completed, hlist, hcompleted⟩ := h.list
  refine ⟨h.highest, h.reassembly, ⟨completed, hlist, fun n hn => ?_⟩,
    h.sublist.trans (List.sublist_append_left _ _), h.segment, h.window⟩
  obtain ⟨g, hg, hg'⟩ := hcompleted n hn
  exact ⟨g, List.mem_append_left _ hg, hg'⟩

/-- The timer waits for something in the window. -/
def TimerInv (e : UmEntity) (kept : ℕ) : Prop :=
  e.tReassemblyStart ≠ 0 → e.InWindow kept e.rxTimerTrigger

/-- When the window moves past what the timer waits for, the timer stops, unless the end of the
window has the same sequence number. -/
theorem timerInv_stopTReassembly {kept' : ℕ}
    (hhighest : e.rxNextHighest = kept' % e.cfg.snModulus) (h : e.TimerInv kept)
    (hle : kept ≤ kept') (hstep : kept' ≤ kept + e.cfg.windowSize) :
    e.stopTReassembly.TimerInv kept' := by
  rw [UmEntity.stopTReassembly]
  split_ifs with hstop
  · exact fun hrunning => absurd rfl hrunning
  · intro hrunning
    obtain ⟨n, hn, hn', hmod⟩ := h hrunning
    by_cases hwindow : kept' ≤ n + e.cfg.windowSize
    · exact ⟨n, by omega, hwindow, hmod⟩
    · have hpos := windowSize_pos e.cfg
      have hmodulus := snModulus_eq e.cfg
      have hround : n % e.cfg.snModulus = (n + e.cfg.snModulus) % e.cfg.snModulus :=
        (Nat.add_mod_right _ _).symm
      have hhigh : ¬ e.modulusRx e.rxTimerTrigger > e.modulusRx e.rxNextHighest :=
        fun hlt => hstop ⟨hrunning, .inr (.inl hlt)⟩
      rw [hmod, hround, hhighest, modulusRx_mod hhighest (by omega) (by omega),
        modulusRx_mod hhighest (by omega) (by omega)] at hhigh
      have heq : n + e.cfg.snModulus = kept' := by omega
      exact ⟨kept', le_rfl, by omega, by rw [hmod, hround, heq]⟩

theorem timerInv_startTimer (hhighest : e.rxNextHighest = kept % e.cfg.snModulus) :
    e.startTimer.TimerInv kept :=
  fun _ => ⟨kept, le_rfl, Nat.le_add_right _ _, hhighest⟩

theorem timerInv_startTReassembly (hhighest : e.rxNextHighest = kept % e.cfg.snModulus)
    (h : e.TimerInv kept) : e.startTReassembly.TimerInv kept := by
  rw [UmEntity.startTReassembly]
  split_ifs
  · exact timerInv_startTimer hhighest
  · exact h

/-- The timer does not matter for the receive buffer. -/
theorem RecvInv.of_timer (h : e.RecvInv arrived held kept) (hcfg : e'.cfg = e.cfg)
    (hhighest : e'.rxNextHighest = e.rxNextHighest)
    (hreassembly : e'.rxNextReassembly = e.rxNextReassembly) (hlist : e'.rxList = e.rxList) :
    e'.RecvInv arrived held kept := by
  obtain ⟨h₁, h₂, h₃, h₄, h₅, h₆⟩ := h
  rw [← hcfg] at h₁ h₃ h₆
  rw [InWindow, ← hcfg] at h₂
  exact ⟨hhighest.trans h₁, by rwa [hreassembly], by rwa [hlist], h₄, h₅, h₆⟩

theorem timers_receptionActions (e : UmEntity) :
    e.stopTReassembly.startTReassembly.cfg = e.cfg ∧
      e.stopTReassembly.startTReassembly.rxNextHighest = e.rxNextHighest ∧
      e.stopTReassembly.startTReassembly.rxNextReassembly = e.rxNextReassembly ∧
      e.stopTReassembly.startTReassembly.rxList = e.rxList ∧
      e.stopTReassembly.startTReassembly.delivered = e.delivered ∧
      e.stopTReassembly.rxNextHighest = e.rxNextHighest ∧ e.stopTReassembly.cfg = e.cfg := by
  rw [UmEntity.startTReassembly, UmEntity.stopTReassembly]
  split_ifs <;> exact ⟨rfl, rfl, rfl, rfl, rfl, rfl, rfl⟩

/-! ### Reception -/

/-- A segment that belongs behind all others is appended. -/
theorem pduListAdd_eq_append {pdu : Pdu} {l : List Pdu}
    (h : ∀ cur ∈ l, ¬ (e.modulusRx cur.sn > e.modulusRx pdu.sn ∨
      (cur.sn = pdu.sn ∧ cur.so > pdu.so))) : e.pduListAdd pdu l = l ++ [pdu] := by
  induction l with
  | nil => rfl
  | cons cur l ih =>
    rw [List.forall_mem_cons] at h
    rw [pduListAdd, if_neg h.1, ih h.2]
    rfl

/-- A segment that arrives in order is the last one of the receive buffer. -/
theorem RecvInv.added (h : e.RecvInv arrived held kept) (ha : Arrivals e.cfg (arrived ++ [f]))
    (hwhole : f.isWhole = false) (hlow : kept ≤ f.number + 1)
    (hhigh : f.number < kept + e.cfg.windowSize) :
    e.addIndex (f.toPdu e.cfg) = held.length ∧ ∃ completed,
      (e.addPdu (f.toPdu e.cfg)).Newest (held ++ [f]) completed kept f ∧
        completed f.number = false ∧ ∀ n, completed n = true → ∃ g ∈ arrived ++ [f],
          g.isWhole = false ∧ g.number = n ∧ g.segment.isLast = true := by
  have hpos := windowSize_pos e.cfg
  have hmodulus := snModulus_eq e.cfg
  obtain ⟨completed, hlist, hcompleted⟩ := h.list
  have horder := ha.order
  rw [List.pairwise_append] at horder
  have hbefore : ∀ g ∈ arrived, g.Before f :=
    fun g hg => horder.2.2 g hg f (List.mem_singleton_self f)
  -- the last segment of this SDU has not arrived before
  have hfresh : completed f.number = false := by
    by_contra hdone
    obtain ⟨g, hg, hg', hnumber, hlast⟩ := hcompleted _ (Bool.eq_true_of_not_eq_false hdone)
    rcases (hbefore g hg).number hg' hwhole with hlt | hsame
    · omega
    · rw [hsame.2.2.2] at hlast
      cases hlast
  have hle : ∀ g ∈ held, g.number ≤ f.number := by
    intro g hg
    have := h.window g hg
    omega
  have hlast : ∀ cur ∈ e.rxList, ¬ (e.modulusRx cur.sn > e.modulusRx (f.toPdu e.cfg).sn ∨
      (cur.sn = (f.toPdu e.cfg).sn ∧ cur.so > (f.toPdu e.cfg).so)) := by
    intro cur hcur
    rw [hlist] at hcur
    obtain ⟨g, hg, rfl⟩ := List.mem_map.mp hcur
    obtain ⟨hlt, hwindow⟩ := h.window g hg
    have hso : (f.toPdu e.cfg).so = f.segment.so := rfl
    have hsn : (f.toPdu e.cfg).sn = f.number % e.cfg.snModulus := rfl
    rw [hsn, hso, g.view_sn, g.view_so, modulusRx_mod h.highest hwindow (by omega),
      modulusRx_mod h.highest (by omega) hhigh]
    rintro (hgt | ⟨hmod, hgt⟩)
    · omega
    · have heq : g.number = f.number := eq_of_mod_eq_of_window hmod hwindow (by omega)
        (by omega) hhigh
      rcases (hbefore g (h.sublist.subset hg)).number (h.segment g hg) hwhole with hlt' | hsame
      · omega
      · omega
  refine ⟨?_, completed, ⟨?_, ?_, ?_, ?_, ?_⟩, hfresh, fun n hn => ?_⟩
  · have hall : e.rxList.takeWhile (fun cur => !decide (e.modulusRx cur.sn >
        e.modulusRx (f.toPdu e.cfg).sn ∨ (cur.sn = (f.toPdu e.cfg).sn ∧
          cur.so > (f.toPdu e.cfg).so))) = e.rxList :=
      List.takeWhile_eq_self_iff.mpr fun cur hcur => by
        rw [Bool.not_eq_true', decide_eq_false_iff_not]
        exact hlast cur hcur
    rw [addIndex, hall, hlist, List.length_map]
  · have hview : f.view e.cfg completed = f.toPdu e.cfg := by
      rw [UmFlight.view, hfresh, if_neg Bool.false_ne_true]
    change e.pduListAdd (f.toPdu e.cfg) e.rxList = _
    rw [pduListAdd_eq_append hlast, hlist, List.map_append, List.map_singleton, ← hview]
    rfl
  · exact List.mem_append_right _ (List.mem_singleton_self f)
  · intro g hg
    rw [List.mem_append, List.mem_singleton] at hg
    rcases hg with hg | rfl
    · exact hle g hg
    · exact le_rfl
  · rw [List.pairwise_append]
    refine ⟨?_, List.pairwise_singleton _ _, fun g hg g' hg' => ?_⟩
    · refine (horder.1.sublist h.sublist).imp_of_mem fun {g g'} hg hg' hgg' => ?_
      rcases hgg'.number (h.segment g hg) (h.segment g' hg') with hlt | hsame
      · omega
      · omega
    · rw [List.mem_singleton.mp hg']
      exact hle g hg
  · intro g hg
    change kept ≤ g.number + e.cfg.windowSize ∧ g.number < kept + e.cfg.windowSize
    rw [List.mem_append, List.mem_singleton] at hg
    rcases hg with hg | rfl
    · have := h.window g hg
      omega
    · omega
  · obtain ⟨g, hg, hg'⟩ := hcompleted n hn
    exact ⟨g, List.mem_append_left _ hg, hg'⟩

theorem Newest.sduFull_eq_false {completed : ℕ → Bool}
    (hnew : e.Newest (held ++ [f]) completed kept f) (hwhole : f.isWhole = false)
    (hfirst : f.segment.isFirst = true ↔ f.segment.so = 0)
    (hold : ∀ g ∈ held, g.number < f.number) :
    e.sduFull (f.number % e.cfg.snModulus) = false := by
  have hown : (held ++ [f]).filter (fun g => g.number == f.number) = [f] := by
    rw [List.filter_append, List.filter_eq_nil_iff.mpr fun g hg => ?_]
    · simp
    · rw [beq_iff_eq]
      exact (hold g hg).ne
  rw [UmEntity.sduFull, hnew.segmentsOf_eq, hown, List.map_singleton, Rlc.sduFull]
  have hlast : (f.view e.cfg completed).isLast = f.segment.isLast := by
    rw [UmFlight.view]
    split_ifs <;> rfl
  rw [fullFrom, UmFlight.view_so, hlast]
  split_ifs with hso hl
  · exact Bool.and_false _
  · have hzero : f.segment.so = 0 := by omega
    rw [UmFlight.isWhole, hfirst.mpr hzero, hl] at hwhole
    cases hwhole
  all_goals exact Bool.and_false _

/-- The entity after a segment was put into the receive buffer. -/
structure Received (e : UmEntity) (arrived held : List UmFlight) (f : UmFlight) (e' : UmEntity) :
    Prop where
  cfg : e'.cfg = e.cfg
  recv : ∃ held', held' <:+ held ++ [f] ∧ e'.RecvInv (arrived ++ [f]) held' (f.number + 1)
  timer : e'.TimerInv (f.number + 1)
  delivered : e'.delivered = e.delivered ∨
    (f.segment.isLast = true ∧ e'.delivered = e.delivered ++ [f.data])

/-- The timers run on. -/
theorem Received.of_actions {kept' : ℕ} {e₁ : UmEntity} (hkept' : kept' = f.number + 1)
    (hrecv : ∃ held', held' <:+ held ++ [f] ∧ e₁.RecvInv (arrived ++ [f]) held' kept')
    (hsame : e.SameRx e₁) (ht : e.TimerInv kept) (hle : kept ≤ kept')
    (hstep : kept' ≤ kept + e.cfg.windowSize)
    (hdelivered : e₁.delivered = e.delivered ∨
      (f.segment.isLast = true ∧ e₁.delivered = e.delivered ++ [f.data])) :
    e.Received arrived held f e₁.stopTReassembly.startTReassembly := by
  subst hkept'
  obtain ⟨held', hsuffix, hinv⟩ := hrecv
  obtain ⟨hcfg, hhighest, hreassembly, hlist, hdel, hhighest', hcfg'⟩ :=
    e₁.timers_receptionActions
  have ht₁ : e₁.TimerInv kept := by
    intro hrunning
    rw [InWindow, hsame.rxTimerTrigger, hsame.cfg]
    exact ht (hsame.tReassemblyStart ▸ hrunning)
  refine ⟨hcfg.trans hsame.cfg, ⟨held', hsuffix, hinv.of_timer hcfg hhighest hreassembly hlist⟩,
    ?_, by rw [hdel]; exact hdelivered⟩
  refine timerInv_startTReassembly ?_ (timerInv_stopTReassembly hinv.highest ht₁ hle ?_)
  · rw [hhighest', hcfg']
    exact hinv.highest
  · rw [hsame.cfg]
    exact hstep

/-- A segment of the next SDU, or of the one before, is received. -/
theorem RecvInv.recvSegment (h : e.RecvInv arrived held kept) (ht : e.TimerInv kept)
    (ha : Arrivals e.cfg (arrived ++ [f])) (hwhole : f.isWhole = false)
    (hlow : kept ≤ f.number + 1) (hhigh : f.number < kept + e.cfg.windowSize)
    (he : (e.addPdu (f.toPdu e.cfg)).receptionActions (f.number % e.cfg.snModulus) = some e') :
    e.Received arrived held f e' := by
  obtain ⟨-, completed, hnew, hfresh, hcompleted⟩ := h.added ha hwhole hlow hhigh
  set e₁ := e.addPdu (f.toPdu e.cfg) with he₁
  have hcfg₁ : e₁.cfg = e.cfg := rfl
  have hsublist : (held ++ [f]).Sublist (arrived ++ [f]) :=
    h.sublist.append (List.Sublist.refl _)
  have hsegment : ∀ g ∈ held ++ [f], g.isWhole = false := by
    intro g hg
    rw [List.mem_append, List.mem_singleton] at hg
    rcases hg with hg | rfl
    · exact h.segment g hg
    · exact hwhole
  obtain ⟨e₂, he₂, rfl⟩ := Option.map_eq_some_iff.mp he
  by_cases hcase : kept = f.number + 1
  · -- the SDU is in the window
    have hinv₁ : e₁.RecvInv (arrived ++ [f]) (held ++ [f]) kept := by
      refine ⟨h.highest, h.reassembly, ⟨completed, hnew.list, hcompleted⟩, hsublist, hsegment, ?_⟩
      intro g hg
      have hle := hnew.le g hg
      have hwindow := (hnew.window g hg).1
      exact ⟨by omega, hwindow⟩
    by_cases hfull : e₁.sduFull (f.number % e.cfg.snModulus) = true
    · rw [if_pos hfull] at he₂
      obtain ⟨hinv₂, hsame, hdelivered⟩ :=
        hinv₁.completeSdu ha hnew hcompleted hfresh hfull he₂
      have hlast : f.segment.isLast = true := by
        -- the last segment of the SDU is the newest one
        obtain ⟨-, g, hg, hnumber, hlast⟩ :=
          hnew.reassembleFrom_eq ha hsublist hsegment hfresh hfull
        rw [List.mem_append, List.mem_singleton] at hg
        rcases hg with hg | rfl
        · have horder := (List.pairwise_append.mp ha.order).2.2 g (h.sublist.subset hg) f
            (List.mem_singleton_self f)
          rcases horder.number (h.segment g hg) hwhole with hlt | hsame
          · omega
          · rw [hsame.2.2.2] at hlast
            cases hlast
        · exact hlast
      exact .of_actions hcase ⟨_, List.suffix_refl _, hinv₂⟩
        ⟨hsame.cfg, hsame.tReassemblyStart, hsame.rxTimerTrigger⟩ ht le_rfl
        (Nat.le_add_right _ _) (.inr ⟨hlast, hdelivered⟩)
    · rw [if_neg hfull, UmEntity.moveWindow, if_neg ?_] at he₂
      · obtain rfl := Option.some.inj he₂
        exact .of_actions hcase ⟨_, List.suffix_refl _, hinv₁⟩ ⟨rfl, rfl, rfl⟩ ht le_rfl
          (Nat.le_add_right _ _) (.inl rfl)
      · have hpos := windowSize_pos e₁.cfg
        have hhighest : e₁.rxNextHighest = kept % e₁.cfg.snModulus := h.highest
        have hnewest := modulusRx_mod (n := f.number) hhighest (by omega) hhigh
        have hend := modulusRx_mod (n := kept) hhighest (by omega)
          (Nat.lt_add_of_pos_right hpos)
        rw [hhighest, hend]
        change ¬ e₁.modulusRx (f.number % e₁.cfg.snModulus) ≥ _
        rw [hnewest]
        omega
  · -- the SDU is ahead of the window
    have hkept : kept ≤ f.number := by omega
    have hfull : e₁.sduFull (f.number % e.cfg.snModulus) = false := by
      refine hnew.sduFull_eq_false hwhole ?_ fun g hg => ?_
      · exact (ha.wellFormed f (List.mem_append_right _ (List.mem_singleton_self f))).isFirst
      · have := (h.window g hg).1
        omega
    rw [hfull, if_neg Bool.false_ne_true] at he₂
    obtain ⟨hinv₂, hsame, hdelivered⟩ :=
      hnew.moveWindow h.highest h.reassembly hkept hcompleted hsublist hsegment he₂
    exact .of_actions rfl hinv₂ ⟨hsame.cfg, hsame.tReassemblyStart, hsame.rxTimerTrigger⟩ ht
      (by omega) (by omega) (.inl hdelivered)

theorem RecvInv.setTime {now : ℕ} (h : e.RecvInv arrived held kept) (ht : e.TimerInv kept)
    (he : e.setTime now = some e') :
    (∃ held', held' <:+ held ∧ e'.RecvInv arrived held' kept) ∧ e'.TimerInv kept ∧
      e'.cfg = e.cfg ∧ e'.delivered = e.delivered := by
  have hnow : RecvInv { e with tCurrent := now } arrived held kept := h.of_timer rfl rfl rfl rfl
  rw [UmEntity.setTime, checkTReassembly] at he
  split_ifs at he with hexpired
  · obtain rfl := Option.some.inj he
    exact ⟨⟨held, List.suffix_refl _, hnow⟩, ht, rfl, rfl⟩
  · obtain ⟨r, hr, rfl⟩ := Option.map_eq_some_iff.mp he
    have hrunning : e.tReassemblyStart ≠ 0 := by
      intro hstop
      refine hexpired ?_
      rw [tReassemblyExpired, decide_eq_false_iff_not]
      exact fun hand => hand.1 hstop
    obtain ⟨completed, hlist, hcompleted⟩ := h.list
    have hr' : e.InWindow kept r :=
      (listInWindow_of_held (e := { e with tCurrent := now }) hlist h.window).skipDelivered
        (ht hrunning) hr
    set e₁ : UmEntity := { e with tCurrent := now, tReassemblyStart := 0, rxNextReassembly := r }
    set held' := held.dropWhile (e₁.isStale ∘ UmFlight.view e.cfg completed) with hheld'
    have hsuffix : held' <:+ held := List.dropWhile_suffix _
    have hinv : e₁.discardStale.RecvInv arrived held' kept := by
      refine ⟨h.highest, hr', ⟨completed, ?_, hcompleted⟩, hsuffix.sublist.trans h.sublist,
        fun g hg => h.segment g (hsuffix.subset hg), fun g hg => h.window g (hsuffix.subset hg)⟩
      change e.rxList.dropWhile _ = _
      rw [hlist, List.dropWhile_map]
      rfl
    rw [restartTReassembly]
    split_ifs
    · exact ⟨⟨held', hsuffix, hinv.of_timer rfl rfl rfl rfl⟩, timerInv_startTimer hinv.highest,
        rfl, rfl⟩
    · exact ⟨⟨held', hsuffix, hinv⟩, fun hstart => absurd rfl hstart, rfl, rfl⟩

end UmEntity

/-! ### The link -/

namespace UmLink

open UmEntity UmFlight

variable {l l' : UmLink}

/-- Fewer than `window_size` SDUs that were sent in segments are lost in a row: the PDU that leaves
the channel is not too far behind the last segment that arrived. -/
def FewLost (l : UmLink) : UmLinkOp → Prop
  | .lose => ∀ f ∈ l.channel.head?, f.isWhole = false → f.segment.isLast = true →
      f.number + 1 < l.heard + l.rx.cfg.windowSize
  | .arrive => ∀ f ∈ l.channel.head?, f.isWhole = false →
      f.number < l.heard + l.rx.cfg.windowSize
  | _ => True

/-- Fewer than `window_size` SDUs that were sent in segments are kept out in a row, because their
segments are lost or find no room in the receive buffer. -/
def FewKeptOut (l : UmLink) : UmLinkOp → Prop
  | .arrive => ∀ f ∈ l.channel.head?, l.rx.hasRoomFor f.pdu = true →
      f.number < l.kept + l.rx.cfg.windowSize
  | _ => True

/-- What was delivered was submitted, in this order and each SDU at most once, and nothing was put
together from segments of two SDUs. -/
structure Faithful (l : UmLink) : Prop where
  delivered : l.rx.delivered.Sublist ((List.range l.tx.sduCount).map fun i => (l.tx.sdus i).data)
  oneSdu : ∀ flights ∈ l.reassembled, ∃ i, ∀ f ∈ flights, f.segment.sdu = i

/-- A run of the link, in which every step meets some condition. -/
abbrev LinkRun (tx rx : UmConfig) (condition : UmLink → UmLinkOp → Prop) :
    List UmLinkOp → UmLink → Prop :=
  Run.Reach (fun op l l' => condition l op ∧ l.op op = some l') (· = new tx rx)

/-- The invariant of the link. -/
structure Inv (l : UmLink) : Prop where
  send : l.SendInv
  sameLength : l.rx.cfg.snFieldLength = l.tx.cfg.snFieldLength
  recv : l.rx.RecvInv l.arrived l.held l.kept
  timer : l.rx.TimerInv l.kept
  kept : l.kept = 0 ∨ ∃ g ∈ l.arrived, g.isWhole = false ∧ g.number + 1 = l.kept
  delivered : ∃ lasts : List UmFlight, lasts.Sublist l.arrived ∧
    (∀ f ∈ lasts, f.segment.isLast = true) ∧ l.rx.delivered = lasts.map UmFlight.data
  oneSdu : ∀ flights ∈ l.reassembled, ∃ i, ∀ f ∈ flights, f.segment.sdu = i

theorem inv_new {tx rx : UmConfig} (hlength : rx.snFieldLength = tx.snFieldLength) :
    (new tx rx).Inv where
  send := sendInv_new tx rx
  sameLength := hlength
  recv := by
    refine ⟨(Nat.zero_mod _).symm, ⟨0, le_rfl, Nat.zero_le _, (Nat.zero_mod _).symm⟩,
      ⟨fun _ => false, rfl, fun _ hn => absurd hn Bool.false_ne_true⟩, List.Sublist.refl _, ?_, ?_⟩
    · exact fun _ hg => absurd hg List.not_mem_nil
    · exact fun _ hg => absurd hg List.not_mem_nil
  timer := fun hrunning => absurd rfl hrunning
  kept := .inl rfl
  delivered := ⟨[], List.Sublist.refl _, fun _ hf => absurd hf List.not_mem_nil, rfl⟩
  oneSdu := fun _ hflights => absurd hflights List.not_mem_nil

theorem SendInv.arrivals (h : l.SendInv)
    (hlength : l.rx.cfg.snFieldLength = l.tx.cfg.snFieldLength) :
    Arrivals l.rx.cfg (l.arrived ++ l.channel) where
  order := h.order
  data := fun f hf g hg hsdu => by rw [(h.made f hf).data, (h.made g hg).data, hsdu]
  wellFormed := fun f hf => (h.made f hf).wellFormed.congr hlength

/-- What has arrived was sent in order, each SDU once. -/
theorem Inv.faithful (h : l.Inv) : l.Faithful := by
  refine ⟨?_, h.oneSdu⟩
  obtain ⟨lasts, hsublist, hlast, hdelivered⟩ := h.delivered
  have hflights : lasts.Sublist (l.arrived ++ l.channel) :=
    hsublist.trans (List.sublist_append_left _ _)
  have hdata : lasts.map UmFlight.data =
      (lasts.map fun f => f.segment.sdu).map fun i => (l.tx.sdus i).data := by
    rw [List.map_map]
    exact List.map_congr_left fun f hf => (h.send.made f (hflights.subset hf)).data
  rw [hdelivered, hdata]
  refine List.Sublist.map _ (Window.sublist_range_of_increasing ?_ fun i hi => ?_)
  · rw [List.pairwise_map]
    exact (h.send.order.sublist hflights).imp_of_mem fun hf _ hbefore => hbefore.isLast (hlast _ hf)
  · obtain ⟨f, hf, rfl⟩ := List.mem_map.mp hi
    exact (h.send.made f (hflights.subset hf)).sdu

/-! ### Steps of the link -/

/-- The first PDU of the channel. -/
theorem Inv.first {f : UmFlight} {channel : List UmFlight} (h : l.Inv)
    (hchannel : l.channel = f :: channel) :
    Arrivals l.rx.cfg (l.arrived ++ [f]) ∧ f.WellFormed l.rx.cfg ∧
      (f.isWhole = false → l.kept ≤ f.number + 1) := by
  have harrivals := h.send.arrivals h.sameLength
  rw [hchannel, List.append_cons] at harrivals
  have ha := harrivals.sublist (List.sublist_append_left _ _)
  refine ⟨ha, ha.wellFormed f (List.mem_append_right _ (List.mem_singleton_self f)), ?_⟩
  intro hwhole
  rcases h.kept with hzero | ⟨g, hg, hg', hnumber⟩
  · omega
  · have hbefore := (List.pairwise_append.mp ha.order).2.2 g hg f (List.mem_singleton_self f)
    rcases hbefore.number hg' hwhole with hlt | hsame <;> omega

/-- A PDU leaves the channel. -/
theorem Inv.send_hear {f : UmFlight} {channel : List UmFlight} (h : l.Inv)
    (hchannel : l.channel = f :: channel) (htx : l'.tx = l.tx) (hnumber : l'.number = l.number)
    (harrived : l'.arrived = l.arrived ++ [f]) (hchannel' : l'.channel = channel) : l'.SendInv := by
  refine h.send.of_sublist htx hnumber ?_
  rw [harrived, hchannel', hchannel, ← List.append_cons]

/-- The segments that are noted are those of the receive buffer. -/
theorem receive_held {rx : UmEntity} {arrived held' : List UmFlight} {kept : ℕ}
    (hsuffix : held' <:+ l.held) (hinv : rx.RecvInv arrived held' kept) :
    (l.receive rx).held = held' := by
  change l.held.drop (l.held.length - rx.rxList.length) = held'
  rw [hinv.length_eq]
  exact (List.suffix_iff_eq_drop.mp hsuffix).symm

/-- At most the SDU that ends with a PDU is delivered. -/
theorem Inv.delivered_append {f : UmFlight} {rx : UmEntity} (h : l.Inv)
    (hdelivered : rx.delivered = l.rx.delivered ∨
      (f.segment.isLast = true ∧ rx.delivered = l.rx.delivered ++ [f.data])) :
    ∃ lasts : List UmFlight, lasts.Sublist (l.arrived ++ [f]) ∧
      (∀ f ∈ lasts, f.segment.isLast = true) ∧ rx.delivered = lasts.map UmFlight.data := by
  obtain ⟨lasts, hsublist, hlasts, hold⟩ := h.delivered
  rcases hdelivered with heq | ⟨hlast, heq⟩
  · exact ⟨lasts, hsublist.trans (List.sublist_append_left _ _), hlasts, heq.trans hold⟩
  · refine ⟨lasts ++ [f], hsublist.append (List.Sublist.refl _), fun g hg => ?_, ?_⟩
    · rw [List.mem_append, List.mem_singleton] at hg
      rcases hg with hg | rfl
      · exact hlasts g hg
      · exact hlast
    · rw [heq, hold, List.map_append]
      rfl

/-- Nothing is put into the receive buffer. -/
theorem Inv.arrive_passed {f : UmFlight} {channel : List UmFlight} {rx : UmEntity} (h : l.Inv)
    (hchannel : l.channel = f :: channel) (hcfg : rx.cfg = l.rx.cfg)
    (hhighest : rx.rxNextHighest = l.rx.rxNextHighest)
    (hreassembly : rx.rxNextReassembly = l.rx.rxNextReassembly)
    (hlist : rx.rxList = l.rx.rxList) (hstart : rx.tReassemblyStart = l.rx.tReassemblyStart)
    (htrigger : rx.rxTimerTrigger = l.rx.rxTimerTrigger)
    (hkept : (l.hear f channel).kept = l.kept)
    (hdelivered : rx.delivered = l.rx.delivered ∨
      (f.segment.isLast = true ∧ rx.delivered = l.rx.delivered ++ [f.data])) :
    ((l.hear f channel).receive rx).Inv := by
  have hrecv : rx.RecvInv (l.arrived ++ [f]) l.held l.kept :=
    (h.recv.mono [f]).of_timer hcfg hhighest hreassembly hlist
  have hheld : ((l.hear f channel).receive rx).held = l.held :=
    receive_held (List.suffix_refl l.held) hrecv
  refine ⟨h.send_hear hchannel rfl rfl rfl rfl, ?_, ?_, ?_, ?_, ?_, h.oneSdu⟩
  · change rx.cfg.snFieldLength = _
    rw [hcfg]
    exact h.sameLength
  · rw [hheld]
    change rx.RecvInv _ _ (l.hear f channel).kept
    rw [hkept]
    exact hrecv
  · change rx.TimerInv (l.hear f channel).kept
    rw [hkept]
    intro hrunning
    rw [InWindow, htrigger, hcfg]
    exact h.timer (hstart ▸ hrunning)
  · change (l.hear f channel).kept = 0 ∨ _
    rw [hkept]
    rcases h.kept with hzero | ⟨g, hg, hg'⟩
    · exact .inl hzero
    · exact .inr ⟨g, List.mem_append_left _ hg, hkept.symm ▸ hg'⟩
  · exact h.delivered_append hdelivered

/-- A segment is put into the receive buffer. -/
theorem Inv.arrive_held {f : UmFlight} {channel : List UmFlight} {rx : UmEntity} (h : l.Inv)
    (hchannel : l.channel = f :: channel) (hwhole : f.isWhole = false)
    (hkept : (l.hear f channel).kept = f.number + 1)
    (hhigh : f.number < l.kept + l.rx.cfg.windowSize)
    (hrx : (l.rx.addPdu (f.toPdu l.rx.cfg)).receptionActions (f.number % l.rx.cfg.snModulus) =
      some rx) :
    (((l.hear f channel).hold f (f.toPdu l.rx.cfg)).receive rx).Inv := by
  obtain ⟨ha, -, hlow⟩ := h.first hchannel
  obtain ⟨hindex, completed, hnew, -, -⟩ := h.recv.added ha hwhole (hlow hwhole) hhigh
  obtain ⟨hcfg, ⟨held', hsuffix, hrecv⟩, htimer, hdelivered⟩ :=
    h.recv.recvSegment h.timer ha hwhole (hlow hwhole) hhigh hrx
  set l₁ := (l.hear f channel).hold f (f.toPdu l.rx.cfg) with hl₁
  have hheld₁ : l₁.held = l.held ++ [f] := by
    change l.held.take (l.rx.addIndex _) ++ f :: l.held.drop (l.rx.addIndex _) = _
    rw [hindex, List.take_length, List.drop_length]
  have hheld : (l₁.receive rx).held = held' := receive_held (hheld₁ ▸ hsuffix) hrecv
  refine ⟨h.send_hear hchannel rfl rfl rfl rfl, ?_, ?_, ?_, ?_, h.delivered_append hdelivered, ?_⟩
  · change rx.cfg.snFieldLength = _
    rw [hcfg]
    exact h.sameLength
  · rw [hheld]
    change rx.RecvInv _ _ (l.hear f channel).kept
    rw [hkept]
    exact hrecv
  · change rx.TimerInv (l.hear f channel).kept
    rw [hkept]
    exact htimer
  · refine .inr ⟨f, List.mem_append_right _ (List.mem_singleton_self f), hwhole, hkept.symm⟩
  · -- what is put together are the segments of the newest SDU
    have hown := hnew.own_eq
    rw [← hheld₁] at hown
    have hreassembled : l₁.reassembled = if (l.rx.addPdu (f.toPdu l.rx.cfg)).sduFull
        (f.number % l.rx.cfg.snModulus) then
          l.reassembled ++ [l₁.held.filter fun g => g.number == f.number] else l.reassembled := by
      rw [← hown]
      rfl
    intro flights hflights
    change flights ∈ l₁.reassembled at hflights
    rw [hreassembled] at hflights
    split_ifs at hflights
    · rw [List.mem_append, List.mem_singleton] at hflights
      rcases hflights with hflights | rfl
      · exact h.oneSdu flights hflights
      · refine ⟨f.segment.sdu, fun g hg => ?_⟩
        rw [List.mem_filter, beq_iff_eq, hheld₁, List.mem_append, List.mem_singleton] at hg
        obtain ⟨hg | rfl, hnumber⟩ := hg
        · exact ha.sdu_eq (List.mem_append_left _ (h.recv.sublist.subset hg))
            (List.mem_append_right _ (List.mem_singleton_self f)) (h.recv.segment g hg) hwhole
            hnumber
        · rfl
    · exact h.oneSdu flights hflights

theorem Inv.arrive (h : l.Inv) (hfew : l.FewKeptOut .arrive) (he : l.arrive = some l') :
    l'.Inv := by
  rw [UmLink.arrive] at he
  cases hchannel : l.channel with
  | nil =>
    rw [hchannel] at he
    obtain rfl := Option.some.inj he
    exact h
  | cons f channel =>
    rw [hchannel] at he
    obtain ⟨rx, hrx, rfl⟩ := Option.map_eq_some_iff.mp he
    obtain ⟨ha, hf, hlow⟩ := h.first hchannel
    cases hwhole : f.isWhole with
    | true =>
      have hparse := hf.parsePdu_whole hwhole
      have hstored : l.rx.stored f.pdu = none := by
        rw [stored, hparse]
        split_ifs <;> rfl
      have hroom : l.rx.hasRoomFor f.pdu = false := by
        rw [hasRoomFor, hparse]
        split_ifs <;> rfl
      have hkept : (l.hear f channel).kept = l.kept := if_neg (by rw [hroom]; decide)
      rw [hstored]
      rw [recvPdu, hparse] at hrx
      split_ifs at hrx
      · obtain rfl := Option.some.inj hrx
        exact h.arrive_passed hchannel rfl rfl rfl rfl rfl rfl hkept (.inl rfl)
      · obtain rfl := Option.some.inj hrx
        rw [isWhole, Bool.and_eq_true] at hwhole
        exact h.arrive_passed hchannel rfl rfl rfl rfl rfl rfl hkept (.inr ⟨hwhole.2, rfl⟩)
    | false =>
      have hparse := hf.parsePdu_segment hwhole
      have hstored : l.rx.stored f.pdu =
          if l.rx.accepts (f.toPdu l.rx.cfg) then some (f.toPdu l.rx.cfg) else none := by
        rw [stored, hparse]
      have hroom : l.rx.hasRoomFor f.pdu =
          !decide (l.rx.rxSize + (f.toPdu l.rx.cfg).size > l.rx.cfg.rxMaxsize) := by
        rw [hasRoomFor, hparse]
      have hfew' : l.rx.hasRoomFor f.pdu = true → f.number < l.kept + l.rx.cfg.windowSize :=
        hfew f (by rw [hchannel]; rfl)
      rw [recvPdu, hparse] at hrx
      rw [hstored]
      by_cases haccepts : l.rx.accepts (f.toPdu l.rx.cfg) = true
      · have hroom' : l.rx.hasRoomFor f.pdu = true := by
          rw [accepts, ← hroom, Bool.and_eq_true] at haccepts
          exact haccepts.1
        dsimp only at hrx
        rw [if_pos haccepts] at hrx ⊢
        exact h.arrive_held hchannel hwhole (if_pos hroom') (hfew' hroom') hrx
      · dsimp only at hrx
        rw [if_neg haccepts] at hrx ⊢
        obtain rfl := Option.some.inj hrx
        refine h.arrive_passed hchannel rfl rfl rfl rfl rfl rfl ?_ (.inl rfl)
        change (if l.rx.hasRoomFor f.pdu = true then f.number + 1 else l.kept) = l.kept
        split_ifs with hroom'
        · -- there is room for the segment, and its SDU has been given up
          have hhigh := hfew' hroom'
          have hlow' := hlow hwhole
          rw [accepts, ← hroom, hroom', Bool.true_and, Bool.not_eq_true', decide_eq_false_iff_not,
            not_not] at haccepts
          obtain ⟨n, hn, hn', hmod⟩ := h.recv.reassembly
          have hpos := windowSize_pos l.rx.cfg
          change l.rx.modulusRx (f.number % l.rx.cfg.snModulus) < _ at haccepts
          rw [hmod, modulusRx_mod h.recv.highest (by omega) hhigh,
            modulusRx_mod h.recv.highest hn' (by omega)] at haccepts
          omega
        · rfl

/-- Only the transmitting side changes. -/
theorem Inv.of_send (h : l.Inv) (hsend : l'.SendInv) (hcfg : l'.tx.cfg = l.tx.cfg)
    (hrx : l'.rx = l.rx) (harrived : l'.arrived = l.arrived) (hheld : l'.held = l.held)
    (hreassembled : l'.reassembled = l.reassembled) (hkept : l'.kept = l.kept) : l'.Inv := by
  obtain ⟨-, hlength, hrecv, htimer, hk, hdelivered, honeSdu⟩ := h
  refine ⟨hsend, ?_, ?_, ?_, ?_, ?_, ?_⟩
  · rwa [hcfg, hrx]
  · rwa [hrx, harrived, hheld, hkept]
  · rwa [hrx, hkept]
  · rwa [harrived, hkept]
  · rwa [hrx, harrived]
  · rwa [hreassembled]

theorem Inv.setTime {now : ℕ} {rx : UmEntity} (h : l.Inv) (hrx : l.rx.setTime now = some rx) :
    (l.receive rx).Inv := by
  obtain ⟨⟨held', hsuffix, hrecv⟩, htimer, hcfg, hdelivered⟩ := h.recv.setTime h.timer hrx
  have hheld : (l.receive rx).held = held' := receive_held hsuffix hrecv
  refine ⟨h.send.of_sublist rfl rfl (List.Sublist.refl _), ?_, ?_, htimer, h.kept, ?_, h.oneSdu⟩
  · change rx.cfg.snFieldLength = _
    rw [hcfg]
    exact h.sameLength
  · rw [hheld]
    exact hrecv
  · obtain ⟨lasts, hsublist, hlasts, hold⟩ := h.delivered
    exact ⟨lasts, hsublist, hlasts, hdelivered.trans hold⟩

/-- Every step keeps the invariant. -/
theorem Inv.op {op : UmLinkOp} (h : l.Inv) (hfew : l.FewKeptOut op) (he : l.op op = some l') :
    l'.Inv := by
  cases op with
  | submit buffer sduId =>
    obtain ⟨tx, htx, rfl⟩ := Option.map_eq_some_iff.mp he
    exact h.of_send (h.send.submit htx) (keepsSdus_recvSdu htx).cfg rfl rfl rfl rfl rfl
  | discard sduId =>
    obtain rfl := Option.some.inj he
    exact h.of_send (h.send.discard sduId) (l.tx.discardSdu_spec sduId).1.cfg rfl rfl rfl rfl rfl
  | generate size =>
    have hsend := h.send.generate he
    obtain ⟨⟨pdu, tx⟩, hgen, rfl⟩ := Option.map_eq_some_iff.mp he
    have hcfg := (generatePdu_spec hgen).1.cfg
    cases hsent : l.tx.sentSegment size with
    | none =>
      simp only [hsent] at hsend ⊢
      exact h.of_send hsend hcfg rfl rfl rfl rfl rfl
    | some s =>
      simp only [hsent] at hsend ⊢
      exact h.of_send hsend hcfg rfl rfl rfl rfl rfl
  | lose =>
    obtain rfl := Option.some.inj he
    refine h.of_send (h.send.of_sublist rfl rfl ?_) rfl rfl rfl rfl rfl rfl
    exact (List.Sublist.refl _).append (List.tail_sublist _)
  | arrive => exact h.arrive hfew he
  | setTime now =>
    obtain ⟨rx, hrx, rfl⟩ := Option.map_eq_some_iff.mp he
    exact h.setTime hrx

end UmLink

/-! ### Runs of the link -/

namespace UmLink

instance (l : UmLink) (op : UmLinkOp) : Decidable (l.FewLost op) := by
  cases op <;> unfold FewLost <;> infer_instance

instance (l : UmLink) (op : UmLinkOp) : Decidable (l.FewKeptOut op) := by
  cases op <;> unfold FewKeptOut <;> infer_instance

/-- Steps that meet a condition. -/
def runIf (condition : UmLink → UmLinkOp → Prop) [∀ l op, Decidable (condition l op)] (l : UmLink)
    (ops : List UmLinkOp) : Option UmLink :=
  ops.foldlM (fun l op => if condition l op then l.op op else none) l

theorem linkRun_of_runIf {tx rx : UmConfig} {condition : UmLink → UmLinkOp → Prop}
    [∀ l op, Decidable (condition l op)] {ops : List UmLinkOp}
    (h : (new tx rx).runIf condition ops = some l) : LinkRun tx rx condition ops l := by
  have hstart : LinkRun tx rx condition [] (new tx rx) := .start rfl
  refine hstart.append_foldlM (fun op _ l l' hop => ?_) h
  split_ifs at hop with hcondition
  exact ⟨hcondition, hop⟩

end UmLink

/-- The link is faithful as long as fewer than `window_size` SDUs in a row are kept out of the
receive buffer. -/
theorem umFaithful_of_run {tx rx : UmConfig} (hlength : rx.snFieldLength = tx.snFieldLength)
    {ops : List UmLinkOp} {l : UmLink} (h : UmLink.LinkRun tx rx UmLink.FewKeptOut ops l) :
    l.Faithful := by
  have hinv : l.Inv := by
    refine h.invariant (fun s hs => hs ▸ UmLink.inv_new hlength) ?_
    rintro op l l' hl ⟨hfew, hop⟩
    exact hl.op hfew hop
  exact hinv.faithful

/-- Entities with 6 bit sequence numbers, and room for five bytes in the receive buffer. -/
def umLinkCfg : UmConfig := ⟨.sn6, 35, 5, 1000⟩

/-- An SDU is sent in two segments, and the one before it is lost. -/
def umLossyOps : List UmLinkOp :=
  [.submit [1] 0, .generate 2, .lose, .submit [2, 3, 4] 1, .generate 3, .arrive, .generate 4,
    .arrive, .setTime 50]

/-- What is delivered is the SDU that was sent in segments. -/
theorem umFaithful_lossy : ∃ l, UmLink.LinkRun umLinkCfg umLinkCfg UmLink.FewKeptOut umLossyOps l ∧
    l.Faithful ∧ l.rx.delivered = [[2, 3, 4]] := by
  have hrun : ((UmLink.new umLinkCfg umLinkCfg).runIf UmLink.FewKeptOut umLossyOps).map
      (fun l => l.rx.delivered) = some [[2, 3, 4]] := by
    decide +kernel
  obtain ⟨l, hl, hdelivered⟩ := Option.map_eq_some_iff.mp hrun
  have hreach := UmLink.linkRun_of_runIf hl
  exact ⟨l, hreach, umFaithful_of_run rfl hreach, hdelivered⟩

/-- The link is faithful as long as fewer than `window_size` SDUs in a row are lost in the channel.
-/
def UmDeliversFaithfully : Prop :=
  ∀ tx rx : UmConfig, rx.snFieldLength = tx.snFieldLength →
    ∀ ops l, UmLink.LinkRun tx rx UmLink.FewLost ops l → l.Faithful

/-- Of the first SDU the first segment arrives, and fills the receive buffer. All of the next 63
SDUs arrives and finds no room. The SDU after them has the sequence number of the first one again,
and only its last byte finds room. -/
def umCrowdedOps : List UmLinkOp :=
  [.submit [0, 0, 0, 0, 0, 0] 0, .generate 5, .arrive, .generate 5, .lose] ++
    (List.replicate 63
      [.submit [0, 0, 0, 0, 0, 0] 0, .generate 5, .arrive, .generate 5, .arrive]).flatten ++
    [.submit [1, 1, 1, 1, 1] 0, .generate 5, .arrive, .generate 4, .arrive]

/-- Four bytes of one SDU are delivered with one byte of another, and no SDU was lost. -/
theorem not_umDeliversFaithfully : ¬ UmDeliversFaithfully := by
  intro hfaithful
  have hrun : ((UmLink.new umLinkCfg umLinkCfg).runIf UmLink.FewLost umCrowdedOps).map
      (fun l => (l.rx.delivered,
        decide ([0, 0, 0, 0, 1] ∈ (List.range l.tx.sduCount).map fun i => (l.tx.sdus i).data))) =
          some ([[0, 0, 0, 0, 1]], false) := by
    decide +kernel
  obtain ⟨l, hl, hstate⟩ := Option.map_eq_some_iff.mp hrun
  obtain ⟨hdelivered, hsubmitted⟩ := Prod.mk.inj hstate
  have hsublist := (hfaithful _ _ rfl _ l (UmLink.linkRun_of_runIf hl)).delivered
  rw [hdelivered, List.singleton_sublist] at hsublist
  exact of_decide_eq_false hsubmitted hsublist

end LlmHric.Rlc
