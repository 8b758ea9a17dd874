import Mathlib.Data.Set.Lattice
import Mathlib.Data.List.Pairwise
import Mathlib.Order.CompletePartialOrder
import Mathlib.Tactic.Common

/-! Items are placed one after the other. An item that is placed takes a region of one of several
places, and the region has to be free there. What is taken only grows. -/

namespace Packing

variable {α κ π : Type*}

/-- Which items are placed, at which place, and the region they take there. -/
structure Layout (α κ π : Type*) where
  placed : α → Prop
  place : α → κ
  region : α → Set π

namespace Layout

variable {L : Layout α κ π}

/-- Two items do not overlap when they are placed at one place. -/
def Apart (L : Layout α κ π) (a b : α) : Prop :=
  L.placed a → L.placed b → L.place a = L.place b → Disjoint (L.region a) (L.region b)

/-- The placed items overlap neither each other nor what was taken before. -/
structure Exclusive (L : Layout α κ π) (base : κ → Set π) (items : List α) : Prop where
  apart : items.Pairwise L.Apart
  untaken : ∀ a ∈ items, L.placed a → Disjoint (L.region a) (base (L.place a))

/-- Everything in the regions of the placed items is taken, besides what was taken before. -/
structure Packed (L : Layout α κ π) (base taken : κ → Set π) (items : List α) : Prop where
  exclusive : L.Exclusive base items
  marked : ∀ a ∈ items, L.placed a → L.region a ⊆ taken (L.place a)
  grows : ∀ k, base k ⊆ taken k

variable {base taken taken' : κ → Set π} {items items' pre post : List α} {a a' b : α}

theorem Apart.symm (h : L.Apart a b) : L.Apart b a :=
  fun hb ha hplace => (h ha hb hplace.symm).symm

theorem apart_of_not_placed (h : ¬ L.placed a) (b : α) : L.Apart a b := fun ha => absurd ha h

theorem Exclusive.of_not_placed (h : ∀ a ∈ items, ¬ L.placed a) (base : κ → Set π) :
    L.Exclusive base items where
  apart := List.pairwise_of_forall_mem_list fun a ha b _ => apart_of_not_placed (h a ha) b
  untaken a ha hplaced := absurd hplaced (h a ha)

/-- Items that are not placed can be added. -/
theorem Exclusive.append (h : L.Exclusive base items) (h' : ∀ a ∈ items', ¬ L.placed a) :
    L.Exclusive base (items ++ items') := by
  refine ⟨List.pairwise_append.mpr ⟨h.apart, (of_not_placed h' base).apart, fun a _ b hb =>
    (apart_of_not_placed (h' b hb) a).symm⟩, fun a ha hplaced => ?_⟩
  rcases List.mem_append.mp ha with ha | ha
  · exact h.untaken a ha hplaced
  · exact absurd hplaced (h' a ha)

/-- At the start nothing is placed. -/
theorem Packed.start (h : ∀ a ∈ items, ¬ L.placed a) (base : κ → Set π) :
    L.Packed base base items where
  exclusive := .of_not_placed h base
  marked a ha hplaced := absurd hplaced (h a ha)
  grows _ := subset_rfl

/-- An item is placed, or not: its region was free, and is taken now. -/
theorem Packed.replace (h : L.Packed base taken (pre ++ a :: post))
    (hgrow : ∀ k, taken k ⊆ taken' k)
    (hnew : L.placed a' →
      Disjoint (L.region a') (taken (L.place a')) ∧ L.region a' ⊆ taken' (L.place a')) :
    L.Packed base taken' (pre ++ a' :: post) := by
  have hmem : ∀ b ∈ pre ++ a' :: post, b = a' ∨ b ∈ pre ++ a :: post := by
    intro b hb
    rcases List.mem_append.mp hb with hb | hb
    · exact .inr (List.mem_append_left _ hb)
    · rcases List.mem_cons.mp hb with rfl | hb
      · exact .inl rfl
      · exact .inr (List.mem_append_right _ (List.mem_cons_of_mem _ hb))
  have hold : ∀ b ∈ pre ++ post, b ∈ pre ++ a :: post := by
    intro b hb
    rcases List.mem_append.mp hb with hb | hb
    · exact List.mem_append_left _ hb
    · exact List.mem_append_right _ (List.mem_cons_of_mem _ hb)
  refine ⟨⟨?_, fun b hb hplaced => ?_⟩, fun b hb hplaced => ?_,
    fun k => (h.grows k).trans (hgrow k)⟩
  · have hpair := (List.pairwise_middle fun h => h.symm).mp h.exclusive.apart
    refine (List.pairwise_middle fun h => h.symm).mpr
      (List.pairwise_cons.mpr
          ⟨fun b hb ha' hb_placed hplace => ?_, (List.pairwise_cons.mp hpair).2⟩)
    exact (hnew ha').1.mono_right (hplace ▸ h.marked b (hold b hb) hb_placed)
  · rcases hmem b hb with rfl | hb
    · exact (hnew hplaced).1.mono_right (h.grows _)
    · exact h.exclusive.untaken b hb hplaced
  · rcases hmem b hb with rfl | hb
    · exact (hnew hplaced).2
    · exact (h.marked b hb hplaced).trans (hgrow _)

end Layout

end Packing
