import Mathlib.Data.List.Nodup
import Mathlib.Tactic.Common

/-! Items are put into bins one by one: each goes into the first bin that takes it, or into a new
bin behind the others. Bins and items are arbitrary; a bin is known by what it takes. -/

namespace FirstFit

variable {B I N : Type*} (fits : B → I → Bool) (put : B → I → B) (new : I → B)

/-- Put an item into the first bin that takes it, or into a new bin. -/
def place : List B → I → List B
  | [], x => [new x]
  | b :: bs, x => if fits b x then put b x :: bs else b :: place bs x

/-- Put items one after the other. -/
def pack (bins : List B) (xs : List I) : List B := xs.foldl (place fits put new) bins

/-- The number of bins that an item opens. -/
def newBin (bins : List B) (x : I) : ℕ := if bins.any (fits · x) then 0 else 1

variable {fits put new} {bins : List B} {x : I} {xs : List I}

@[simp] theorem pack_nil : pack fits put new bins [] = bins := rfl

@[simp] theorem pack_cons :
    pack fits put new bins (x :: xs) = pack fits put new (place fits put new bins x) xs := rfl

theorem length_place : (place fits put new bins x).length = bins.length + newBin fits bins x := by
  induction bins with
  | nil => rfl
  | cons b bs ih =>
    unfold place
    split_ifs with hb
    · simp [newBin, hb]
    · have hfalse : fits b x = false := Bool.eq_false_iff.mpr hb
      rw [List.length_cons, ih, List.length_cons, newBin, newBin, List.any_cons, hfalse,
        Bool.false_or, Nat.add_right_comm]

theorem length_le_length_pack : bins.length ≤ (pack fits put new bins xs).length := by
  induction xs generalizing bins with
  | nil => exact Nat.le_refl _
  | cons x xs ih =>
    calc bins.length
      _ ≤ (place fits put new bins x).length := length_place ▸ Nat.le_add_right _ _
      _ ≤ (pack fits put new bins (x :: xs)).length := ih

variable {l : List N} {f g : N → B}

/-- The item goes into the bin that a search finds first. -/
theorem place_map_of_find? {n : N} (hl : l.Nodup) (hn : l.find? (fun n => fits (f n) x) = some n)
    (hput : g n = put (f n) x) (hframe : ∀ m ∈ l, m ≠ n → g m = f m) :
    l.map g = place fits put new (l.map f) x := by
  induction l with
  | nil => cases hn
  | cons m l ih =>
    rw [List.nodup_cons] at hl
    rw [List.map_cons, List.map_cons, place]
    rcases hm : fits (f m) x with _ | _
    · rw [List.find?_cons_of_neg (by simp [hm])] at hn
      have hmn : m ≠ n := by
        rintro rfl
        exact hl.1 (List.mem_of_find?_eq_some hn)
      rw [if_neg Bool.false_ne_true, hframe m (List.mem_cons_self ..) hmn,
        ih hl.2 hn fun k hk => hframe k (List.mem_cons_of_mem _ hk)]
    · simp only [List.find?_cons, hm] at hn
      obtain rfl := Option.some.inj hn
      rw [if_pos rfl, hput]
      congr 1
      apply List.map_congr_left
      intro k hk
      exact hframe k (List.mem_cons_of_mem _ hk) fun hkm => hl.1 (hkm ▸ hk)

/-- A search that finds no bin opens one. -/
theorem place_map_of_find?_eq_none (hn : l.find? (fun n => fits (f n) x) = none) :
    place fits put new (l.map f) x = l.map f ++ [new x] := by
  induction l with
  | nil => rfl
  | cons m l ih =>
    rw [List.find?_eq_none] at hn
    have hm : ¬ fits (f m) x = true := hn m (List.mem_cons_self ..)
    rw [List.map_cons, place, if_neg hm, List.cons_append,
      ih (List.find?_eq_none.mpr fun k hk => hn k (List.mem_cons_of_mem _ hk))]

theorem newBin_map :
    newBin fits (l.map f) x = if (l.find? fun n => fits (f n) x).isSome then 0 else 1 := by
  rw [newBin, List.any_map, List.isSome_find?]
  rfl

end FirstFit
