import LlmHric.Library.LinkedCells
import Mathlib.Data.List.Perm.Subperm
import Mathlib.Data.List.Range
import Mathlib.Data.List.TakeWhile
import Mathlib.Tactic.SplitIfs

/-! `NR_list_t` is a list of numbers below a fixed length, kept in an array that holds for every
number the one after it, with the first and the last number at hand. The number -1 that ends a list
is `none`. -/

namespace LlmHric.Mac

open LinkedCells

/-- `NR_list_t`. -/
structure NrList where
  head : Option ℕ
  next : ℕ → Option ℕ
  tail : Option ℕ
  len : ℕ

namespace NrList

/-- `create_nr_list`. -/
def create (len : ℕ) : NrList := ⟨none, fun _ => none, none, len⟩

/-- `resize_nr_list`; `none` if an assertion fails. -/
def resize (l : NrList) (newLen : ℕ) : Option NrList :=
  if newLen = l.len then some l
  else if newLen > l.len then
    some { l with next := fun i => if l.len ≤ i then none else l.next i, len := newLen }
  else if (∀ id ∈ l.head, id < newLen) ∧ (∀ id ∈ l.tail, id < newLen) ∧
      ∀ i ∈ List.range l.len, ∀ id ∈ l.next i, id < newLen then
    some { l with len := newLen }
  else none

/-- `add_tail_nr_list`. -/
def addTail (l : NrList) (id : ℕ) : NrList :=
  match l.tail with
  | none => { l with head := some id, next := Function.update l.next id none, tail := some id }
  | some last =>
    { l with
      next := Function.update (Function.update l.next last (some id)) id none
      tail := some id }

/-- `add_front_nr_list`. -/
def addFront (l : NrList) (id : ℕ) : NrList :=
  { l with
    head := some id
    next := Function.update l.next id l.head
    tail := if l.tail = none then some id else l.tail }

/-- `remove_front_nr_list`; `none` if there is nothing to remove. -/
def removeFront (l : NrList) : Option NrList :=
  match l.head with
  | none => none
  | some ohead =>
    some { l with
      head := l.next ohead
      next := Function.update l.next ohead none
      tail := if l.next ohead = none then none else l.tail }

/-- What a pointer of `remove_nr_list` leads to: the head for `none`, or the entry of a number. -/
def cell (l : NrList) : Option ℕ → Option ℕ
  | none => l.head
  | some i => l.next i

/-- Write through such a pointer. -/
def setCell (l : NrList) (c : Option ℕ) (v : Option ℕ) : NrList :=
  match c with
  | none => { l with head := v }
  | some i => { l with next := Function.update l.next i v }

/-- The loop of `add_nr_list` with the pointer `cur`; `none` if the number is in the list. -/
def findEnd (l : NrList) (id : ℕ) : ℕ → Option ℕ → Option (Option ℕ)
  | 0, _ => none
  | fuel + 1, cur =>
    match l.cell cur with
    | none => some cur
    | some i => if i = id then none else findEnd l id fuel (some i)

/-- `add_nr_list`; `none` if the number is in the list. The loop passes every number once. -/
def add (l : NrList) (id : ℕ) : Option NrList := do
  let cur ← l.findEnd id (l.len + 1) none
  let l := l.setCell cur (some id)
  some { l with tail := if l.next id = none then some id else l.tail }

/-- The loop of `remove_nr_list` with the pointers `prev` and `cur`. -/
def findCell (l : NrList) (id : ℕ) : ℕ → Option ℕ → Option ℕ → Option (Option ℕ × Option ℕ)
  | 0, _, _ => none
  | fuel + 1, prev, cur =>
    match l.cell cur with
    | none => some (prev, cur)
    | some i => if i = id then some (prev, cur) else findCell l id fuel cur (some i)

/-- `remove_nr_list`; `none` if the number is not found. The loop passes every number once. -/
def remove (l : NrList) (id : ℕ) : Option NrList := do
  let (prev, cur) ← l.findCell id (l.len + 1) none none
  let found ← l.cell cur
  let l := (l.setCell cur (l.next found)).setCell (some found) none
  let last := l.cell prev
  some { l with tail := if ∃ i ∈ last, l.next i ≠ none then l.tail else last }

/-! ### The numbers of a list -/

/-- The list has these numbers in this order. -/
structure Represents (l : NrList) (ids : List ℕ) : Prop where
  chain : Segment l.next l.head ids none
  tail : l.tail = ids.getLast?
  nodup : ids.Nodup
  bound : ∀ id ∈ ids, id < l.len

variable {l : NrList} {ids pre post : List ℕ} {id : ℕ}

theorem Represents.unique {ids' : List ℕ} (h : l.Represents ids) (h' : l.Represents ids') :
    ids = ids' := h.chain.unique h'.chain

theorem represents_create (len : ℕ) : (create len).Represents [] :=
  ⟨rfl, rfl, List.nodup_nil, by simp⟩

/-- The numbers of a list are not more than its length. -/
theorem Represents.length_le (h : l.Represents ids) : ids.length ≤ l.len := by
  have hsub : ids ⊆ List.range l.len := fun id hid => List.mem_range.mpr (h.bound id hid)
  simpa using (List.subperm_of_subset h.nodup hsub).length_le

theorem Represents.head (h : l.Represents ids) : l.head = ids.head? := by
  cases ids with
  | nil => exact h.chain
  | cons id ids => exact h.chain.1

theorem Represents.resize {newLen : ℕ} (h : l.Represents ids) (hlen : l.len ≤ newLen) :
    ∃ l', l.resize newLen = some l' ∧ l'.Represents ids ∧ l'.len = newLen := by
  by_cases heq : newLen = l.len
  · exact ⟨l, by simp [NrList.resize, heq], h, heq.symm⟩
  · have hlt : newLen > l.len := by omega
    have hresize : l.resize newLen = some
        { l with next := fun i => if l.len ≤ i then none else l.next i, len := newLen } := by
      rw [NrList.resize, if_neg heq, if_pos hlt]
    refine ⟨_, hresize, ⟨?_, h.tail, h.nodup, ?_⟩, rfl⟩
    · refine h.chain.congr fun id hid => ?_
      have hid := h.bound id hid
      exact if_neg (by omega)
    · intro id hid
      exact (h.bound id hid).trans_le hlen

@[simp] theorem len_addTail (l : NrList) (id : ℕ) : (l.addTail id).len = l.len := by
  unfold addTail
  cases l.tail <;> rfl

theorem Represents.addTail (h : l.Represents ids) (hid : id ∉ ids) (hlt : id < l.len) :
    (l.addTail id).Represents (ids ++ [id]) := by
  have hnodup : (ids ++ [id]).Nodup :=
    h.nodup.append (List.nodup_singleton id) (List.disjoint_singleton.mpr hid)
  have hbound : ∀ x ∈ ids ++ [id], x < l.len := by
    intro x hx
    rcases List.mem_append.mp hx with hx | hx
    · exact h.bound x hx
    · rwa [List.mem_singleton.mp hx]
  have htail := h.tail
  have hchain := h.chain
  rcases List.eq_nil_or_concat' ids with rfl | ⟨pre, last, rfl⟩
  · have heq : l.addTail id = { l with
        head := some id, next := Function.update l.next id none, tail := some id } := by
      rw [NrList.addTail, htail]
      rfl
    rw [heq]
    exact ⟨⟨rfl, Function.update_self ..⟩, rfl, hnodup, hbound⟩
  · have heq : l.addTail id = { l with
        next := Function.update (Function.update l.next last (some id)) id none
        tail := some id } := by
      rw [NrList.addTail, htail]
      simp
    rw [heq]
    have hlast : last ∉ pre := by
      have := List.nodup_append.mp h.nodup
      exact fun hmem => this.2.2 last hmem last (List.mem_singleton_self _) rfl
    refine ⟨?_, by simp, hnodup, hbound⟩
    refine segment_append.mpr ⟨some id, ?_, rfl, Function.update_self ..⟩
    exact (hchain.update_last hlast _).update hid _

@[simp] theorem len_foldl_addTail (xs : List ℕ) (l : NrList) :
    (xs.foldl NrList.addTail l).len = l.len := by
  induction xs generalizing l with
  | nil => rfl
  | cons x xs ih => rw [List.foldl_cons, ih, len_addTail]

/-- Several numbers are added, one after the other. -/
theorem Represents.foldl_addTail {xs : List ℕ} (h : l.Represents ids) (hnodup : (ids ++ xs).Nodup)
    (hlt : ∀ x ∈ xs, x < l.len) : (xs.foldl NrList.addTail l).Represents (ids ++ xs) := by
  induction xs generalizing l ids with
  | nil => rwa [List.append_nil]
  | cons x xs ih =>
    have hx : x ∉ ids := fun hmem =>
      (List.nodup_append.mp hnodup).2.2 x hmem x (List.mem_cons_self ..) rfl
    have hadd := h.addTail hx (hlt x (List.mem_cons_self ..))
    rw [List.append_cons] at hnodup ⊢
    refine ih hadd hnodup fun y hy => ?_
    rw [len_addTail]
    exact hlt y (List.mem_cons_of_mem _ hy)

theorem removeFront_nil (h : l.Represents []) : l.removeFront = none := by
  rw [removeFront, h.head]
  rfl

theorem Represents.removeFront (h : l.Represents (id :: ids)) :
    ∃ l', l.removeFront = some l' ∧ l'.Represents ids ∧ l'.len = l.len := by
  have hhead : l.head = some id := h.head
  have hrest : Segment l.next (l.next id) ids none := h.chain.2
  obtain ⟨hnot, hnodup⟩ := List.nodup_cons.mp h.nodup
  have hremove : l.removeFront = some { l with
      head := l.next id
      next := Function.update l.next id none
      tail := if l.next id = none then none else l.tail } := by
    rw [NrList.removeFront, hhead]
  refine ⟨_, hremove, ⟨hrest.update hnot _, ?_, hnodup, ?_⟩, rfl⟩
  · have htail := h.tail
    cases ids with
    | nil => exact if_pos hrest
    | cons y ys =>
      have hnext : l.next id = some y := hrest.1
      simp [hnext, htail]
  · intro x hx
    exact h.bound x (List.mem_cons_of_mem _ hx)

/-! ### Removing a number -/

/-- A pointer behind some numbers leads to what comes next. -/
theorem cell_getLast? {d : Option ℕ} (h : Segment l.next l.head pre d) :
    l.cell pre.getLast? = d := by
  rcases List.eq_nil_or_concat' pre with rfl | ⟨pre, last, rfl⟩
  · exact h
  · rw [List.getLast?_append_of_ne_nil _ (by simp)]
    exact h.end_eq.symm

/-- The loop of `remove_nr_list` stops behind the numbers before the one it looks for, or behind
all of them. -/
theorem findCell_eq (id : ℕ) (pre rest : List ℕ) {fuel : ℕ}
    (h : Segment l.next l.head (pre ++ rest) none) (hfuel : rest.length < fuel) :
    l.findCell id fuel pre.dropLast.getLast? pre.getLast? =
      some ((pre ++ rest.takeWhile (· ≠ id)).dropLast.getLast?,
        (pre ++ rest.takeWhile (· ≠ id)).getLast?) := by
  induction rest generalizing pre fuel with
  | nil =>
    obtain ⟨fuel, rfl⟩ := Nat.exists_eq_succ_of_ne_zero (by omega : fuel ≠ 0)
    have hcell : l.cell pre.getLast? = none := cell_getLast? (by simpa using h)
    simp [findCell, hcell]
  | cons i rest ih =>
    obtain ⟨fuel, rfl⟩ := Nat.exists_eq_succ_of_ne_zero (by omega : fuel ≠ 0)
    obtain ⟨e, hpre, hrest⟩ := segment_append.mp h
    have hcell : l.cell pre.getLast? = some i := (cell_getLast? hpre).trans hrest.1
    by_cases hi : i = id
    · simp [findCell, hcell, hi]
    · have hnext := ih (pre ++ [i]) (by simpa using h) (Nat.lt_of_succ_lt_succ hfuel)
      simpa [findCell, hcell, hi] using hnext

/-- A pointer behind some numbers leads to the first of the others. -/
theorem cell_eq_head? (h : Segment l.next l.head (pre ++ post) none) :
    l.cell pre.getLast? = post.head? := by
  obtain ⟨e, hpre, hpost⟩ := segment_append.mp h
  rw [cell_getLast? hpre]
  cases post with
  | nil => exact hpost
  | cons i post => exact hpost.1

/-- The entry of a number leads to the one after it. -/
theorem next_eq_head? (h : Segment l.next l.head (pre ++ id :: post) none) :
    l.next id = post.head? := by
  have hcell : l.cell (pre ++ [id]).getLast? = post.head? := cell_eq_head? (by simpa using h)
  rwa [List.getLast?_concat] at hcell

theorem segment_setCell {c : Option ℕ} {d : Option ℕ} (h : Segment l.next l.head pre d)
    (hnodup : pre.Nodup) :
    Segment (l.setCell pre.getLast? c).next (l.setCell pre.getLast? c).head pre c := by
  rcases List.eq_nil_or_concat' pre with rfl | ⟨pre, last, rfl⟩
  · rfl
  · have hlast : last ∉ pre := by
      have hparts := List.nodup_append.mp hnodup
      exact fun hmem => hparts.2.2 last hmem last (List.mem_singleton_self _) rfl
    rw [List.getLast?_concat]
    exact h.update_last hlast c

theorem segment_setCell_of_notMem {c d e v : Option ℕ} {xs : List ℕ} (h : Segment l.next c xs d)
    (he : ∀ i ∈ e, i ∉ xs) : Segment (l.setCell e v).next c xs d := by
  cases e with
  | none => exact h
  | some i => exact h.update (he i rfl) v

/-- Take a number out of the cells: the pointer before it is led to the number after it. -/
def unlink (l : NrList) (cur : Option ℕ) (id : ℕ) : NrList :=
  (l.setCell cur (l.next id)).setCell (some id) none

theorem segment_unlink (h : Segment l.next l.head (pre ++ id :: post) none)
    (hnodup : (pre ++ id :: post).Nodup) :
    Segment (l.unlink pre.getLast? id).next (l.unlink pre.getLast? id).head (pre ++ post) none := by
  obtain ⟨hpre, hrest, hdisj⟩ := List.nodup_append.mp hnodup
  obtain ⟨hidpost, -⟩ := List.nodup_cons.mp hrest
  have hidpre : id ∉ pre := fun hmem => hdisj id hmem id (List.mem_cons_self ..) rfl
  obtain ⟨e, hto, -, hfrom⟩ := segment_append.mp h
  have hto' := (segment_setCell (c := l.next id) hto hpre).update hidpre none
  have hfrom' : Segment (l.setCell pre.getLast? (l.next id)).next (l.next id) post none := by
    refine segment_setCell_of_notMem hfrom fun i hi hmem => ?_
    have hipre : i ∈ pre := List.mem_of_getLast? hi
    exact hdisj i hipre i (List.mem_cons_of_mem _ hmem) rfl
  exact segment_append.mpr ⟨l.next id, hto', hfrom'.update hidpost none⟩

@[simp] theorem len_setCell (l : NrList) (c v : Option ℕ) : (l.setCell c v).len = l.len := by
  cases c <;> rfl

@[simp] theorem tail_setCell (l : NrList) (c v : Option ℕ) : (l.setCell c v).tail = l.tail := by
  cases c <;> rfl

@[simp] theorem len_unlink (l : NrList) (cur : Option ℕ) (id : ℕ) :
    (l.unlink cur id).len = l.len := by
  simp [unlink]

@[simp] theorem tail_unlink (l : NrList) (cur : Option ℕ) (id : ℕ) :
    (l.unlink cur id).tail = l.tail := by
  simp [unlink]

/-- The tail that `remove_nr_list` sets is the last number left. -/
theorem getLast?_unlink {l' : NrList} (h : Segment l'.next l'.head (pre ++ post) none) :
    (if ∃ i ∈ l'.cell pre.dropLast.getLast?, l'.next i ≠ none then (pre ++ id :: post).getLast?
      else l'.cell pre.dropLast.getLast?) = (pre ++ post).getLast? := by
  rcases List.eq_nil_or_concat' pre with rfl | ⟨pre, last, rfl⟩
  · have hsplit : Segment l'.next l'.head ([] ++ post) none := h
    have hcell : l'.cell none = post.head? := cell_eq_head? hsplit
    cases post with
    | nil => simp [hcell]
    | cons y ys =>
      have hnext : l'.next y = ys.head? := next_eq_head? hsplit
      cases ys with
      | nil => simp [hcell, hnext]
      | cons z zs => simp [hcell, hnext]
  · have hsplit : Segment l'.next l'.head (pre ++ (last :: post)) none := by simpa using h
    have hcell : l'.cell pre.getLast? = some last := cell_eq_head? hsplit
    have hnext : l'.next last = post.head? := next_eq_head? hsplit
    cases post with
    | nil => simp [hcell, hnext]
    | cons y ys => simp [hcell, hnext]

/-- The number is found, taken out of the cells, and the tail is set anew. -/
theorem Represents.remove_eq (h : l.Represents (pre ++ id :: post)) :
    l.remove id = some { l.unlink pre.getLast? id with
      tail := if ∃ i ∈ (l.unlink pre.getLast? id).cell pre.dropLast.getLast?,
          (l.unlink pre.getLast? id).next i ≠ none then (l.unlink pre.getLast? id).tail
        else (l.unlink pre.getLast? id).cell pre.dropLast.getLast? } := by
  have hidpre : id ∉ pre := by
    have hparts := List.nodup_append.mp h.nodup
    exact fun hmem => hparts.2.2 id hmem id (List.mem_cons_self ..) rfl
  have hbefore : (pre ++ id :: post).takeWhile (· ≠ id) = pre := by
    have hpre : ∀ i ∈ pre, decide (i ≠ id) = true := fun i hi =>
      decide_eq_true fun heq => hidpre (heq ▸ hi)
    rw [List.takeWhile_append_of_pos hpre, List.takeWhile_cons_of_neg (by simp), List.append_nil]
  have hfind : l.findCell id (l.len + 1) none none =
      some (pre.dropLast.getLast?, pre.getLast?) := by
    have hloop := findCell_eq id [] (pre ++ id :: post) h.chain
      (Nat.lt_succ_of_le h.length_le)
    rwa [List.nil_append, hbefore] at hloop
  have hcell : l.cell pre.getLast? = some id := cell_eq_head? h.chain
  simp only [NrList.remove, hfind, hcell, Option.bind_eq_bind, Option.bind_some]
  rfl

theorem Represents.remove (h : l.Represents ids) (hid : id ∈ ids) :
    ∃ l', l.remove id = some l' ∧ l'.Represents (ids.erase id) ∧ l'.len = l.len := by
  obtain ⟨pre, post, rfl⟩ := List.append_of_mem hid
  have hidpre : id ∉ pre := by
    have hparts := List.nodup_append.mp h.nodup
    exact fun hmem => hparts.2.2 id hmem id (List.mem_cons_self ..) rfl
  have hchain := segment_unlink h.chain h.nodup
  have herase : (pre ++ id :: post).erase id = pre ++ post := by
    rw [List.erase_append_right _ hidpre, List.erase_cons_head]
  refine ⟨_, h.remove_eq, ?_, len_unlink ..⟩
  rw [herase]
  refine ⟨hchain, ?_, ?_, ?_⟩
  · rw [tail_unlink, h.tail]
    exact getLast?_unlink hchain
  · exact herase ▸ h.nodup.erase id
  · intro i hi
    refine (h.bound i ?_).trans_eq (len_unlink ..).symm
    rcases List.mem_append.mp hi with hi | hi
    · exact List.mem_append_left _ hi
    · exact List.mem_append_right _ (List.mem_cons_of_mem _ hi)

theorem remove_eq_none (h : l.Represents ids) (hid : id ∉ ids) : l.remove id = none := by
  have hall : ids.takeWhile (· ≠ id) = ids := by
    refine List.takeWhile_eq_self_iff.mpr ?_
    intro i hi
    exact decide_eq_true fun heq => hid (heq ▸ hi)
  have hfind : l.findCell id (l.len + 1) none none =
      some (ids.dropLast.getLast?, ids.getLast?) := by
    have hloop := findCell_eq id [] ids h.chain (Nat.lt_succ_of_le h.length_le)
    rwa [List.nil_append, hall] at hloop
  have hcell : l.cell ids.getLast? = none := cell_getLast? h.chain
  simp [NrList.remove, hfind, hcell]

/-! ### Adding a number -/

theorem Represents.addFront (h : l.Represents ids) (hid : id ∉ ids) (hlt : id < l.len) :
    (l.addFront id).Represents (id :: ids) := by
  have hchain : Segment (l.addFront id).next l.head ids none := h.chain.update hid _
  have hnext : (l.addFront id).next id = l.head := Function.update_self ..
  refine ⟨⟨rfl, ?_⟩, ?_, List.nodup_cons.mpr ⟨hid, h.nodup⟩, ?_⟩
  · rw [hnext]
    exact hchain
  · have htail := h.tail
    cases ids with
    | nil => exact if_pos htail
    | cons y ys =>
      have hsome : l.tail ≠ none := by simp [htail]
      rw [List.getLast?_cons_cons, ← htail]
      exact if_neg hsome
  · intro i hi
    rcases List.mem_cons.mp hi with rfl | hi
    · exact hlt
    · exact h.bound i hi

/-- The loop of `add_nr_list` stops behind all numbers. -/
theorem findEnd_eq (pre rest : List ℕ) {fuel : ℕ} (h : Segment l.next l.head (pre ++ rest) none)
    (hid : id ∉ rest) (hfuel : rest.length < fuel) :
    l.findEnd id fuel pre.getLast? = some (pre ++ rest).getLast? := by
  induction rest generalizing pre fuel with
  | nil =>
    obtain ⟨fuel, rfl⟩ := Nat.exists_eq_succ_of_ne_zero (by omega : fuel ≠ 0)
    have hcell : l.cell pre.getLast? = none := cell_getLast? (by simpa using h)
    simp [findEnd, hcell]
  | cons i rest ih =>
    obtain ⟨fuel, rfl⟩ := Nat.exists_eq_succ_of_ne_zero (by omega : fuel ≠ 0)
    obtain ⟨hne, hrest⟩ := not_or.mp (mt List.mem_cons.mpr hid)
    have hcell : l.cell pre.getLast? = some i := cell_eq_head? h
    have hnext := ih (pre ++ [i]) (by simpa using h) hrest (Nat.lt_of_succ_lt_succ hfuel)
    rw [List.getLast?_concat, List.append_assoc, List.singleton_append] at hnext
    rw [findEnd, hcell]
    exact (if_neg (Ne.symm hne)).trans hnext

/-- A number whose entry leads nowhere is added at the end. -/
theorem Represents.add (h : l.Represents ids) (hid : id ∉ ids) (hlt : id < l.len)
    (hnext : l.next id = none) :
    l.add id = some { l.setCell ids.getLast? (some id) with tail := some id } ∧
      NrList.Represents { l.setCell ids.getLast? (some id) with tail := some id }
        (ids ++ [id]) := by
  have hfind : l.findEnd id (l.len + 1) none = some ids.getLast? := by
    have hloop := findEnd_eq [] ids h.chain hid (Nat.lt_succ_of_le h.length_le)
    rwa [List.nil_append] at hloop
  have hentry : (l.setCell ids.getLast? (some id)).next id = none := by
    cases hlast : ids.getLast? with
    | none => exact hnext
    | some i =>
      have hne : id ≠ i := fun heq => hid (heq ▸ List.mem_of_getLast? hlast)
      exact (Function.update_of_ne hne ..).trans hnext
  constructor
  · simp only [NrList.add, hfind, Option.bind_eq_bind, Option.bind_some, hentry, if_true]
  · refine ⟨segment_append.mpr ⟨some id, segment_setCell h.chain h.nodup, rfl, hentry⟩, ?_, ?_, ?_⟩
    · rw [List.getLast?_concat]
    · exact h.nodup.append (List.nodup_singleton id) (List.disjoint_singleton.mpr hid)
    · intro i hi
      refine LT.lt.trans_eq ?_ (len_setCell ..).symm
      rcases List.mem_append.mp hi with hi | hi
      · exact h.bound i hi
      · rwa [List.mem_singleton.mp hi]

end NrList

end LlmHric.Mac
