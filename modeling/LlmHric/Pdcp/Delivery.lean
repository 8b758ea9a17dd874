import LlmHric.Pdcp.PdcpEntity

/-! The list of received SDUs is in the order of COUNT. A new SDU is put in its place, and the loops
that deliver take SDUs from the front. -/

namespace LlmHric.Pdcp

namespace PdcpEntity

variable {e : PdcpEntity} {count : UInt32} {l : List PdcpSdu} {n : ℕ}

theorem mem_listAdd {sdu x : PdcpSdu} : x ∈ listAdd sdu l ↔ x = sdu ∨ x ∈ l := by
  induction l with
  | nil => simp [listAdd]
  | cons cur rest ih =>
    rw [listAdd]
    split_ifs
    · rw [List.mem_cons]
    · rw [List.mem_cons, ih, List.mem_cons]
      tauto

theorem pairwise_listAdd {sdu : PdcpSdu} (h : l.Pairwise fun x y => x.count < y.count)
    (hne : ∀ x ∈ l, x.count ≠ sdu.count) :
    (listAdd sdu l).Pairwise fun x y => x.count < y.count := by
  induction l with
  | nil => exact List.pairwise_singleton _ _
  | cons cur rest ih =>
    obtain ⟨hcur, hrest⟩ := List.pairwise_cons.mp h
    rw [listAdd]
    split_ifs with hlt
    · refine List.pairwise_cons.mpr ⟨fun x hx => ?_, h⟩
      rcases List.mem_cons.mp hx with rfl | hx
      · exact hlt
      · exact UInt32.lt_trans hlt (hcur x hx)
    · have hgt : cur.count < sdu.count := by
        refine UInt32.lt_of_le_of_ne (UInt32.not_lt.mp hlt) ?_
        exact hne cur (List.mem_cons_self ..)
      refine List.pairwise_cons.mpr ⟨fun x hx => ?_, ih hrest fun x hx => ?_⟩
      · rcases mem_listAdd.mp hx with rfl | hx
        · exact hgt
        · exact hcur x hx
      · exact hne x (List.mem_cons_of_mem _ hx)

/-! ### Delivery -/

def Delivers (e : PdcpEntity) (pre rest : List PdcpSdu) (e' : PdcpEntity) : Prop :=
  e.rxList = pre ++ rest ∧
    ∃ rxSize, e' = { e with rxList := rest, rxSize, delivered := e.delivered ++ pre }

theorem Delivers.nothing (hlist : e.rxList = l) : e.Delivers [] l e :=
  ⟨hlist, e.rxSize, by rw [List.append_nil, ← hlist]⟩

theorem Delivers.cons {cur : PdcpSdu} {next pre rest : List PdcpSdu} {e' : PdcpEntity}
    (hlist : e.rxList = cur :: next) (h : (e.deliverHead cur next).Delivers pre rest e') :
    e.Delivers (cur :: pre) rest e' := by
  obtain ⟨hnext, rxSize, rfl⟩ := h
  have hnext : next = pre ++ rest := hnext
  refine ⟨by rw [hlist, hnext, List.cons_append], rxSize, ?_⟩
  simp [deliverHead]

/-- What the loops leave alone. -/
theorem deliverConsecutive_frame {α : Type*} {g : PdcpEntity → α}
    (hg : ∀ e cur next, g (e.deliverHead cur next) = g e) (count : UInt32) (l : List PdcpSdu)
    (e : PdcpEntity) : g (deliverConsecutive count l e).2 = g e := by
  induction l generalizing count e with
  | nil => rfl
  | cons cur next ih =>
    rw [deliverConsecutive]
    split_ifs
    · exact (ih _ _).trans (hg e cur next)
    · rfl

theorem deliverBefore_frame {α : Type*} {g : PdcpEntity → α}
    (hg : ∀ e cur next, g (e.deliverHead cur next) = g e) (count : UInt32) (l : List PdcpSdu)
    (e : PdcpEntity) : g (deliverBefore count l e) = g e := by
  induction l generalizing e with
  | nil => rfl
  | cons cur next ih =>
    rw [deliverBefore]
    split_ifs
    · exact (ih _).trans (hg e cur next)
    · rfl

/-- The loop delivers what is before the COUNT where it ends. -/
theorem deliverConsecutive_spec (hlist : e.rxList = l)
    (hsorted : l.Pairwise fun x y => x.count < y.count) (hle : ∀ x ∈ l, count ≤ x.count)
    (hlt : ∀ x ∈ l, x.count.toNat < n) (hcount : count.toNat ≤ n) (hn : n < 4294967296) :
    ∃ pre rest, e.Delivers pre rest (deliverConsecutive count l e).2 ∧
      count ≤ (deliverConsecutive count l e).1 ∧ (deliverConsecutive count l e).1.toNat ≤ n ∧
      (∀ x ∈ pre, x.count < (deliverConsecutive count l e).1) ∧
      ∀ x ∈ rest, (deliverConsecutive count l e).1 ≤ x.count := by
  induction l generalizing count e with
  | nil =>
    refine ⟨[], [], .nothing hlist, UInt32.le_refl _, hcount, ?_, ?_⟩
    · exact fun x hx => absurd hx List.not_mem_nil
    · exact fun x hx => absurd hx List.not_mem_nil
  | cons cur next ih =>
    rw [deliverConsecutive]
    split_ifs with heq
    · obtain ⟨hcur, hnext⟩ := List.pairwise_cons.mp hsorted
      have hcurLt := hlt cur (List.mem_cons_self ..)
      have hsucc : (count + 1).toNat = count.toNat + 1 := by
        rw [UInt32.toNat_add, UInt32.toNat_one, Nat.mod_eq_of_lt]
        rw [heq]
        omega
      have hle' : ∀ x ∈ next, count + 1 ≤ x.count := by
        intro x hx
        have hx' := UInt32.lt_iff_toNat_lt.mp (hcur x hx)
        rw [UInt32.le_iff_toNat_le, hsucc, heq]
        exact hx'
      have hcount' : (count + 1).toNat ≤ n := by
        rw [hsucc, heq]
        exact hcurLt
      obtain ⟨pre, rest, hdelivers, hge, hle'', hpre, hrest⟩ := ih (e := e.deliverHead cur next)
        rfl hnext hle' (fun x hx => hlt x (List.mem_cons_of_mem _ hx)) hcount'
      have hlt' : count < (deliverConsecutive (count + 1) next (e.deliverHead cur next)).1 := by
        rw [UInt32.le_iff_toNat_le, hsucc] at hge
        rw [UInt32.lt_iff_toNat_lt]
        exact hge
      refine ⟨cur :: pre, rest, .cons hlist hdelivers, UInt32.le_of_lt hlt', hle'', ?_, hrest⟩
      intro x hx
      rcases List.mem_cons.mp hx with rfl | hx
      · exact heq ▸ hlt'
      · exact hpre x hx
    · refine ⟨[], cur :: next, .nothing hlist, UInt32.le_refl _, hcount, ?_, hle⟩
      exact fun x hx => absurd hx List.not_mem_nil

theorem deliverBefore_spec (count : UInt32) (hlist : e.rxList = l)
    (hsorted : l.Pairwise fun x y => x.count < y.count) :
    ∃ pre rest, e.Delivers pre rest (deliverBefore count l e) ∧
      (∀ x ∈ pre, x.count < count) ∧ ∀ x ∈ rest, count ≤ x.count := by
  induction l generalizing e with
  | nil =>
    refine ⟨[], [], .nothing hlist, ?_, ?_⟩
    · exact fun x hx => absurd hx List.not_mem_nil
    · exact fun x hx => absurd hx List.not_mem_nil
  | cons cur next ih =>
    obtain ⟨hcur, hnext⟩ := List.pairwise_cons.mp hsorted
    rw [deliverBefore]
    split_ifs with hlt
    · obtain ⟨pre, rest, hdelivers, hpre, hrest⟩ := ih (e := e.deliverHead cur next) rfl hnext
      refine ⟨cur :: pre, rest, .cons hlist hdelivers, ?_, hrest⟩
      intro x hx
      rcases List.mem_cons.mp hx with rfl | hx
      · exact hlt
      · exact hpre x hx
    · refine ⟨[], cur :: next, .nothing hlist, fun x hx => absurd hx List.not_mem_nil, ?_⟩
      intro x hx
      have hge := UInt32.not_lt.mp hlt
      rcases List.mem_cons.mp hx with rfl | hx
      · exact hge
      · exact UInt32.le_trans hge (UInt32.le_of_lt (hcur x hx))

/-- What `t_reordering` waits for has not been delivered. -/
def Waits (e : PdcpEntity) : Prop := e.tReorderingStart ≠ 0 → e.rxDeliv < e.rxReord

/-- The loop ends because the list is empty or its first SDU has another COUNT. -/
theorem deliverConsecutive_stop (count : UInt32) (hlist : e.rxList = l) :
    ∀ x ∈ (deliverConsecutive count l e).2.rxList.head?,
      x.count ≠ (deliverConsecutive count l e).1 := by
  induction l generalizing count e with
  | nil =>
    rw [deliverConsecutive, hlist]
    exact fun x hx => absurd hx (Option.not_mem_none x)
  | cons cur next ih =>
    rw [deliverConsecutive]
    split_ifs with heq
    · exact ih (count + 1) rfl
    · intro x hx hcount
      change x ∈ e.rxList.head? at hx
      rw [hlist] at hx
      obtain rfl := Option.some.inj hx
      exact heq hcount.symm

/-- Every COUNT up to the one where the loop ends was in the list. -/
theorem deliverConsecutive_mem {d : UInt32} (e : PdcpEntity) (hle : count ≤ d)
    (hlt : d < (deliverConsecutive count l e).1) : ∃ x ∈ l, x.count = d := by
  induction l generalizing count e with
  | nil => exact absurd hle (UInt32.not_le.mpr hlt)
  | cons cur next ih =>
    rw [deliverConsecutive] at hlt
    split_ifs at hlt with heq
    · by_cases hd : d = count
      · exact ⟨cur, List.mem_cons_self .., heq.symm.trans hd.symm⟩
      · have hle' : count + 1 ≤ d := by
          have hne : count.toNat ≠ d.toNat := fun h => hd (UInt32.toNat_inj.mp h.symm)
          have hdlt := d.toNat_lt
          rw [UInt32.le_iff_toNat_le] at hle ⊢
          rw [UInt32.toNat_add, UInt32.toNat_one, Nat.mod_eq_of_lt] <;> omega
        obtain ⟨x, hx, hcount⟩ := ih (e.deliverHead cur next) hle' hlt
        exact ⟨x, List.mem_cons_of_mem _ hx, hcount⟩
    · exact absurd hle (UInt32.not_le.mpr hlt)

end PdcpEntity

end LlmHric.Pdcp
