import LlmHric.Library.Refinement
import LlmHric.Mac.NrList

/-! The array of a `NR_list_t` is a sequence without repetitions, and the operations act on its
ends, or take out one number. An operation that fails an assertion has nothing to do in the sequence
either. A number that is not in the sequence has no successor in the array; `add_nr_list` relies on
this, since it decides by the entry of the new number whether it is the last one. -/

namespace LlmHric.Mac

open Refinement

/-- The operations on a list of identifiers. -/
inductive NrListOp where
  | add (id : ℕ)
  | remove (id : ℕ)
  | addTail (id : ℕ)
  | addFront (id : ℕ)
  | removeFront
  deriving DecidableEq

namespace NrListOp

/-- An operation on the array; `none` if an assertion fails. -/
def step (l : NrList) : NrListOp → Option (Unit × NrList)
  | add id => (l.add id).map ((), ·)
  | remove id => (l.remove id).map ((), ·)
  | addTail id => some ((), l.addTail id)
  | addFront id => some ((), l.addFront id)
  | removeFront => l.removeFront.map ((), ·)

/-- An operation on a sequence; `none` if there is nothing to remove. -/
def specStep (ids : List ℕ) : NrListOp → Option (Unit × List ℕ)
  | add id => some ((), ids ++ [id])
  | remove id => if id ∈ ids then some ((), ids.erase id) else none
  | addTail id => some ((), ids ++ [id])
  | addFront id => some ((), id :: ids)
  | removeFront => if ids = [] then none else some ((), ids.tail)

/-- A number of an operation is below the length of the list, and it is new if it is added. -/
def Allowed (ids : List ℕ) (l : NrList) : NrListOp → Prop
  | add id | addTail id | addFront id => id < l.len ∧ id ∉ ids
  | remove id => id < l.len
  | removeFront => True

instance (ids : List ℕ) (l : NrList) : DecidablePred (Allowed ids l)
  | add id | addTail id | addFront id => inferInstanceAs (Decidable (id < l.len ∧ id ∉ ids))
  | remove id => inferInstanceAs (Decidable (id < l.len))
  | removeFront => inferInstanceAs (Decidable True)

end NrListOp

namespace NrList

/-- The array has these numbers in this order, and the others have no successors. -/
structure Holds (ids : List ℕ) (l : NrList) : Prop where
  represents : l.Represents ids
  outside : ∀ i ∉ ids, l.next i = none

variable {l : NrList} {ids pre post : List ℕ} {id : ℕ}

theorem holds_create (len : ℕ) : (create len).Holds [] := ⟨represents_create len, fun _ _ => rfl⟩

/-- Writing behind some of the numbers changes no successor of another number. -/
theorem next_setCell_of_notMem {v : Option ℕ} {i : ℕ} (hi : i ∉ ids) :
    (l.setCell ids.getLast? v).next i = l.next i := by
  cases hlast : ids.getLast? with
  | none => rfl
  | some last =>
    have hne : i ≠ last := fun heq => hi (heq ▸ List.mem_of_getLast? hlast)
    exact Function.update_of_ne hne ..

theorem Holds.add (h : l.Holds ids) (hid : id ∉ ids) (hlt : id < l.len) :
    ∃ l', l.add id = some l' ∧ l'.Holds (ids ++ [id]) := by
  obtain ⟨hadd, hrep⟩ := h.represents.add hid hlt (h.outside id hid)
  refine ⟨_, hadd, hrep, ?_⟩
  intro i hi
  have hold : i ∉ ids := fun hmem => hi (List.mem_append_left _ hmem)
  exact (next_setCell_of_notMem hold).trans (h.outside i hold)

theorem Holds.addTail (h : l.Holds ids) (hid : id ∉ ids) (hlt : id < l.len) :
    (l.addTail id).Holds (ids ++ [id]) := by
  refine ⟨h.represents.addTail hid hlt, ?_⟩
  intro i hi
  have hold : i ∉ ids := fun hmem => hi (List.mem_append_left _ hmem)
  have hne : i ≠ id := fun heq => hi (heq ▸ List.mem_concat_self)
  have hnext := h.outside i hold
  have htail := h.represents.tail
  unfold NrList.addTail
  cases hlast : l.tail with
  | none => exact (Function.update_of_ne hne ..).trans hnext
  | some last =>
    -- the entry of the last number is written, too
    have hmem : last ∈ ids := List.mem_of_getLast? (htail.symm.trans hlast)
    have hother : i ≠ last := fun heq => hold (heq ▸ hmem)
    refine (Function.update_of_ne hne ..).trans ?_
    exact (Function.update_of_ne hother ..).trans hnext

theorem Holds.addFront (h : l.Holds ids) (hid : id ∉ ids) (hlt : id < l.len) :
    (l.addFront id).Holds (id :: ids) := by
  refine ⟨h.represents.addFront hid hlt, ?_⟩
  intro i hi
  have hne : i ≠ id := fun heq => hi (heq ▸ List.mem_cons_self)
  have hold : i ∉ ids := fun hmem => hi (List.mem_cons_of_mem _ hmem)
  exact (Function.update_of_ne hne ..).trans (h.outside i hold)

theorem Holds.removeFront (h : l.Holds (id :: ids)) :
    ∃ l', l.removeFront = some l' ∧ l'.Holds ids := by
  obtain ⟨l', hremove, hrep, -⟩ := h.represents.removeFront
  refine ⟨l', hremove, hrep, ?_⟩
  intro i hi
  have hhead : l.head = some id := h.represents.head
  have hl' : l' = { l with
      head := l.next id
      next := Function.update l.next id none
      tail := if l.next id = none then none else l.tail } := by
    rw [NrList.removeFront, hhead] at hremove
    exact (Option.some.inj hremove).symm
  rw [hl']
  by_cases hne : i = id
  · rw [hne]
    exact Function.update_self ..
  · refine (Function.update_of_ne hne ..).trans ?_
    apply h.outside
    exact fun hmem => hi ((List.mem_cons.mp hmem).resolve_left hne)

theorem next_unlink (h : l.Holds (pre ++ id :: post)) {i : ℕ} (hi : i ∉ pre ++ post) :
    (l.unlink pre.getLast? id).next i = none := by
  by_cases hne : i = id
  · rw [hne]
    exact Function.update_self ..
  · have hpre : i ∉ pre := fun hmem => hi (List.mem_append_left _ hmem)
    refine (Function.update_of_ne hne ..).trans ?_
    refine (next_setCell_of_notMem hpre).trans ?_
    apply h.outside
    intro hmem
    rcases List.mem_append.mp hmem with hmem | hmem
    · exact hpre hmem
    · exact hi (List.mem_append_right _ ((List.mem_cons.mp hmem).resolve_left hne))

theorem Holds.remove (h : l.Holds ids) (hid : id ∈ ids) :
    ∃ l', l.remove id = some l' ∧ l'.Holds (ids.erase id) := by
  obtain ⟨l', hremove, hrep, -⟩ := h.represents.remove hid
  refine ⟨l', hremove, hrep, ?_⟩
  obtain ⟨pre, post, rfl⟩ := List.append_of_mem hid
  have hidpre : id ∉ pre := by
    have hparts := List.nodup_append.mp h.represents.nodup
    exact fun hmem => hparts.2.2 id hmem id (List.mem_cons_self ..) rfl
  rw [List.erase_append_right _ hidpre, List.erase_cons_head]
  intro i hi
  rw [h.represents.remove_eq] at hremove
  have hnext := congrArg NrList.next (Option.some.inj hremove)
  rw [← hnext]
  exact next_unlink h hi

end NrList

/-- Every operation does to the array what it does to the sequence. -/
theorem nrListOp_refines :
    Refines NrListOp.specStep NrListOp.step NrListOp.Allowed (fun ids l => l.Holds ids) := by
  intro ids l op h hallowed
  cases op with
  | add id =>
    obtain ⟨l', hadd, hl'⟩ := h.add hallowed.2 hallowed.1
    rw [NrListOp.step, hadd]
    exact ⟨rfl, hl'⟩
  | remove id =>
    rw [NrListOp.step, NrListOp.specStep]
    by_cases hid : id ∈ ids
    · obtain ⟨l', hremove, hl'⟩ := h.remove hid
      rw [if_pos hid, hremove]
      exact ⟨rfl, hl'⟩
    · rw [if_neg hid, NrList.remove_eq_none h.represents hid]
      exact trivial
  | addTail id => exact ⟨rfl, h.addTail hallowed.2 hallowed.1⟩
  | addFront id => exact ⟨rfl, h.addFront hallowed.2 hallowed.1⟩
  | removeFront =>
    rw [NrListOp.step, NrListOp.specStep]
    cases ids with
    | nil =>
      rw [NrList.removeFront_nil h.represents]
      exact trivial
    | cons id ids =>
      obtain ⟨l', hremove, hl'⟩ := h.removeFront
      rw [hremove]
      exact ⟨rfl, hl'⟩

/-- From an empty list on, operations whose numbers are in range and new where they are added find
and leave a sequence without repetitions in the array: the links lead from the head through its
numbers, the tail is its last one, and no other number has a successor. They act on the sequence as
their names say, and fail an assertion exactly if there is nothing to remove. -/
theorem nrList_runs_matches (len : ℕ) (ops : List NrListOp)
    (hops : AllowedAlong NrListOp.specStep NrListOp.step NrListOp.Allowed [] (NrList.create len)
      ops) :
    Matches (fun ids l => l.Holds ids) (runs NrListOp.specStep [] ops)
      (runs NrListOp.step (NrList.create len) ops) :=
  nrListOp_refines.runs (NrList.holds_create len) hops

/-- Three numbers are added in three ways, and two are removed. -/
theorem nrList_runs_matches_three :
    Matches (fun ids l => l.Holds ids)
      (runs NrListOp.specStep [] [.addTail 2, .addFront 0, .add 3, .remove 2, .removeFront])
      (runs NrListOp.step (NrList.create 4)
        [.addTail 2, .addFront 0, .add 3, .remove 2, .removeFront]) :=
  nrList_runs_matches 4 _ (by decide)

end LlmHric.Mac
