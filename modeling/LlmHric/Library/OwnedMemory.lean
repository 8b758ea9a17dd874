import Mathlib.Algebra.Order.Group.Multiset
import Mathlib.Data.Multiset.MapFold
import Mathlib.Logic.Function.Basic
import Mathlib.Tactic.Common

/-! A memory has a cell at every address that is allocated. A collection of cells with their
addresses is owned if the memory has them and no two are at one address. Collections are put
together by adding them, so that a write to one cell leaves what is added to it alone. -/

namespace OwnedMemory

variable {A ν : Type*}

/-- The cells at the addresses that are allocated. -/
abbrev Memory (A ν : Type*) := A → Option ν

section Operations

variable [DecidableEq A] (mem : Memory A ν) (p : A)

/-- A cell is changed; `none` if there is none. -/
def write (f : ν → ν) : Option (Memory A ν) :=
  (mem p).map fun n => Function.update mem p (some (f n))

/-- A cell is allocated; `none` if the address is in use. -/
def alloc (n : ν) : Option (Memory A ν) :=
  if (mem p).isSome then none else some (Function.update mem p (some n))

/-- A cell is freed; `none` if there is none. -/
def free : Option (Memory A ν) := (mem p).map fun _ => Function.update mem p none

end Operations

/-- The memory has the cells, at different addresses. -/
structure Owns (mem : Memory A ν) (cells : Multiset (A × ν)) : Prop where
  nodup : (cells.map Prod.fst).Nodup
  read : ∀ x ∈ cells, mem x.1 = some x.2

variable {mem : Memory A ν} {p q : A} {n m : ν} {cells rest : Multiset (A × ν)}

theorem Owns.of_eq (h : Owns mem cells) (heq : cells = rest) : Owns mem rest := heq ▸ h

theorem owns_zero : Owns mem 0 :=
  ⟨Multiset.nodup_zero, fun x hx => absurd hx (Multiset.notMem_zero x)⟩

theorem Owns.get (h : Owns mem ({(p, n)} + rest)) : mem p = some n :=
  h.read (p, n) (Multiset.mem_add.mpr (.inl (Multiset.mem_singleton_self _)))

theorem owns_singleton_add :
    Owns mem ({(p, n)} + rest) ↔ mem p = some n ∧ (∀ x ∈ rest, x.1 ≠ p) ∧ Owns mem rest := by
  constructor
  · intro h
    have hnodup := h.nodup
    rw [Multiset.map_add, Multiset.map_singleton, Multiset.singleton_add,
      Multiset.nodup_cons] at hnodup
    refine ⟨h.get, ?_, hnodup.2, fun x hx => h.read x (Multiset.mem_add.mpr (.inr hx))⟩
    intro x hx heq
    exact hnodup.1 (Multiset.mem_map.mpr ⟨x, hx, heq⟩)
  · rintro ⟨hget, hne, hrest⟩
    constructor
    · rw [Multiset.map_add, Multiset.map_singleton, Multiset.singleton_add, Multiset.nodup_cons]
      refine ⟨?_, hrest.nodup⟩
      intro hmem
      obtain ⟨x, hx, heq⟩ := Multiset.mem_map.mp hmem
      exact hne x hx heq
    · intro x hx
      rcases Multiset.mem_add.mp hx with hx | hx
      · rw [Multiset.mem_singleton.mp hx]
        exact hget
      · exact hrest.read x hx

/-- No other cell is at the address of a cell that is owned. -/
theorem Owns.ne (h : Owns mem ({(p, n)} + rest)) {x : A × ν} (hx : x ∈ rest) : x.1 ≠ p :=
  (owns_singleton_add.mp h).2.1 x hx

theorem Owns.tail (h : Owns mem ({(p, n)} + rest)) : Owns mem rest :=
  (owns_singleton_add.mp h).2.2

variable [DecidableEq A]

/-- Cells at other addresses stay. -/
theorem Owns.update (h : Owns mem rest) (hne : ∀ x ∈ rest, x.1 ≠ p) (cell : Option ν) :
    Owns (Function.update mem p cell) rest := by
  refine ⟨h.nodup, ?_⟩
  intro x hx
  rw [Function.update_of_ne (hne x hx)]
  exact h.read x hx

theorem Owns.write (h : Owns mem ({(p, n)} + rest)) (f : ν → ν) :
    ∃ mem', write mem p f = some mem' ∧ Owns mem' ({(p, f n)} + rest) := by
  obtain ⟨hget, hne, hrest⟩ := owns_singleton_add.mp h
  refine ⟨Function.update mem p (some (f n)), ?_, owns_singleton_add.mpr ?_⟩
  · rw [OwnedMemory.write, hget, Option.map_some]
  · exact ⟨Function.update_self .., hne, hrest.update hne _⟩

theorem Owns.alloc (h : Owns mem rest) (hp : mem p = none) (n : ν) :
    ∃ mem', alloc mem p n = some mem' ∧ Owns mem' ({(p, n)} + rest) := by
  have hne : ∀ x ∈ rest, x.1 ≠ p := by
    intro x hx heq
    have hread := h.read x hx
    rw [heq, hp] at hread
    cases hread
  refine ⟨Function.update mem p (some n), ?_, owns_singleton_add.mpr ?_⟩
  · rw [OwnedMemory.alloc, hp]
    rfl
  · exact ⟨Function.update_self .., hne, h.update hne _⟩

theorem Owns.free (h : Owns mem ({(p, n)} + rest)) :
    ∃ mem', free mem p = some mem' ∧ Owns mem' rest := by
  obtain ⟨hget, hne, hrest⟩ := owns_singleton_add.mp h
  refine ⟨Function.update mem p none, ?_, hrest.update hne _⟩
  rw [OwnedMemory.free, hget, Option.map_some]

end OwnedMemory
