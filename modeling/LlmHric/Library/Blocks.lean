import Mathlib.Data.List.Basic
import Mathlib.Tactic.Common
import Mathlib.Tactic.SplitIfs

/-! A block is a list of cells that keeps its length. Cells are read from a position on and written
from a position on, and going beyond the block has no result. -/

namespace Blocks

variable {α : Type*} {block block' xs : List α} {pos count i : ℕ}

/-- Read some cells. -/
def load (block : List α) (pos count : ℕ) : Option (List α) :=
  if pos + count ≤ block.length then some ((block.drop pos).take count) else none

/-- Write some cells. -/
def store (block : List α) (pos : ℕ) (xs : List α) : Option (List α) :=
  if pos + xs.length ≤ block.length then
    some (block.take pos ++ (xs ++ block.drop (pos + xs.length)))
  else none

/-- A block with another number of cells, with new cells at the end if there are more. -/
def realloc (fresh : ℕ → α) (block : List α) (count : ℕ) : List α :=
  block.take count ++ (List.range' block.length (count - block.length)).map fresh

theorem length_realloc (fresh : ℕ → α) (block : List α) (count : ℕ) :
    (realloc fresh block count).length = count := by
  rw [realloc, List.length_append, List.length_map, List.length_range', List.length_take]
  omega

/-- What is inside the new block stays. -/
theorem realloc_append (fresh : ℕ → α) (pre post : List α) (h : pre.length ≤ count) :
    ∃ post', realloc fresh (pre ++ post) count = pre ++ post' := by
  rw [realloc, List.take_append, List.take_of_length_le h, List.append_assoc]
  exact ⟨_, rfl⟩

theorem load_of_le (h : pos + count ≤ block.length) :
    load block pos count = some ((block.drop pos).take count) := if_pos h

theorem store_of_le (h : pos + xs.length ≤ block.length) :
    store block pos xs = some (block.take pos ++ (xs ++ block.drop (pos + xs.length))) := if_pos h

/-- Cells behind a known part are read. -/
theorem load_append (pre mid post : List α) :
    load (pre ++ (mid ++ post)) pre.length mid.length = some mid := by
  rw [load_of_le (by simp only [List.length_append]; omega), List.drop_left, List.take_left]

/-- Cells behind a known part are written over. -/
theorem store_append (pre old post : List α) (hold : old.length = xs.length) :
    store (pre ++ (old ++ post)) pre.length xs = some (pre ++ (xs ++ post)) := by
  have hdrop : (pre ++ (old ++ post)).drop (pre.length + xs.length) = post := by
    rw [← List.append_assoc, ← hold, ← List.length_append, List.drop_left]
  rw [store_of_le (by simp only [List.length_append]; omega), hdrop, List.take_left]

/-- Cells are moved over those before them, and the cells behind them are written over. -/
theorem move_append (pre mid post rest : List α) (fill : α) :
    ∃ block', load (pre ++ (mid ++ (post ++ rest))) (pre.length + mid.length) post.length =
        some post ∧
      store (pre ++ (mid ++ (post ++ rest))) pre.length post = some block' ∧
      store block' (pre.length + post.length) (List.replicate mid.length fill) =
        some (pre ++ (post ++ (List.replicate mid.length fill ++ rest))) := by
  have hload := load_append (pre ++ mid) post rest
  rw [List.length_append, List.append_assoc] at hload
  -- the cells that are left of both parts, once the second one is over the first
  have hlen : ((mid ++ post).take post.length).length = post.length :=
    List.length_take_of_le (by rw [List.length_append]; omega)
  have hleft : ((mid ++ post).drop post.length).length =
      (List.replicate mid.length fill).length := by
    rw [List.length_drop, List.length_append, List.length_replicate]
    omega
  have hsplit : pre ++ (mid ++ (post ++ rest)) = pre ++ ((mid ++ post).take post.length ++
      ((mid ++ post).drop post.length ++ rest)) := by
    rw [← List.append_assoc (List.take _ _), List.take_append_drop, List.append_assoc]
  refine ⟨_, hload, (congrArg (store · _ post) hsplit).trans (store_append pre _ _ hlen), ?_⟩
  have hfill := store_append (pre ++ post) _ rest hleft
  rwa [List.length_append, List.append_assoc, List.append_assoc] at hfill

theorem length_of_load (h : load block pos count = some xs) : xs.length = count := by
  rw [load] at h
  split_ifs at h with hle
  rw [← Option.some.inj h, List.length_take_of_le]
  rw [List.length_drop]
  omega

/-- A block keeps its length. -/
theorem length_of_store (h : store block pos xs = some block') : block'.length = block.length := by
  rw [store] at h
  split_ifs at h with hle
  rw [← Option.some.inj h]
  simp only [List.length_append, List.length_take, List.length_drop]
  omega

theorem getElem?_of_load (h : load block pos count = some xs) (hi : i < count) :
    xs[i]? = block[pos + i]? := by
  rw [load] at h
  split_ifs at h with hle
  rw [← Option.some.inj h, List.getElem?_take_of_lt hi, List.getElem?_drop]

/-- The cells that are written have new values. -/
theorem getElem?_of_store (h : store block pos xs = some block') (hi : i < xs.length) :
    block'[pos + i]? = xs[i]? := by
  rw [store] at h
  split_ifs at h with hle
  have hpre : (block.take pos).length = pos := List.length_take_of_le (by omega)
  rw [← Option.some.inj h, List.getElem?_append_right (by omega), hpre, Nat.add_sub_cancel_left,
    List.getElem?_append_left hi]

/-- The others have their old ones. -/
theorem getElem?_of_store_of_notMem (h : store block pos xs = some block')
    (hi : i < pos ∨ pos + xs.length ≤ i) : block'[i]? = block[i]? := by
  rw [store] at h
  split_ifs at h with hle
  have hpre : (block.take pos).length = pos := List.length_take_of_le (by omega)
  rw [← Option.some.inj h]
  rcases hi with hbefore | hafter
  · rw [List.getElem?_append_left (by omega), List.getElem?_take_of_lt hbefore]
  · rw [List.getElem?_append_right (by omega), List.getElem?_append_right (by omega),
      List.getElem?_drop, hpre]
    congr 1
    omega

end Blocks
