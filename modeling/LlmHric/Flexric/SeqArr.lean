import LlmHric.Library.Blocks
import LlmHric.Library.Refinement
import LlmHric.Library.Rounding
import Mathlib.Data.Int.Notation

/-! A `seq_arr_t` stores elements of one size in a block of bytes, which grows when it is nearly
full and shrinks when elements are erased from it. FlexRIC has one copy of it and OAI another, with
the same arithmetic. The block that an array shrinks to is one of `cap * cap` bytes, in which `cap`
elements have room only if they are not larger than `cap` bytes. Numbers of bytes are `int`s where
elements are erased. -/

namespace LlmHric.Flexric

open Blocks Refinement

/-- `seq_arr_t`. -/
structure SeqArr where
  data : List UInt8
  size : ℕ
  eltSize : ℕ
  cap : ℕ
  deriving DecidableEq

namespace SeqArr

/-- `MIN_SIZE`. -/
def minSize : ℕ := 8

/-- A number as an `int`. -/
def toInt (x : ℤ) : ℤ := x.bmod (2 ^ 32)

/-- A number as a `size_t`. -/
def toSize (x : ℤ) : ℕ := (x % 2 ^ 64).toNat

/-- A `size_t` less an `int`, which goes round below zero. -/
def subSize (size : ℕ) (n : ℤ) : ℕ := if n ≤ size then (size - n).toNat else toSize (size - n)

/-- A number as a `float`. -/
def toFloat (x : ℕ) : ℕ := Rounding.leadingBits 24 x

/-- `maybe_expand`, with what is in the memory that `realloc` adds. -/
def maybeExpand (fresh : ℕ → UInt8) (arr : SeqArr) : SeqArr :=
  if arr.size + 1 = arr.cap then
    { arr with
      data := realloc fresh arr.data (2 * arr.cap * arr.eltSize)
      cap := arr.cap * 2 }
  else arr

/-- The test of `maybe_shrink`. The capacity is a power of two, so the quotient of two `float`s is
exact, and it is below 0.25 if the numbers are. -/
def shrinks (size cap : ℕ) : Bool := size > minSize && 4 * toFloat size < toFloat cap

/-- `maybe_shrink`; `none` if an assertion fails, or if a block is left. -/
def maybeShrink (arr : SeqArr) : Option SeqArr :=
  if shrinks arr.size arr.cap then
    if arr.cap > minSize then do
      let cap := arr.cap / 2
      let data := List.replicate (cap * cap) 0
      if arr.size ≤ cap then do
        let elms ← load arr.data 0 (arr.size * arr.eltSize)
        let data ← store data 0 elms
        some { arr with data, cap }
      else none
    else none
  else some arr

/-- `seq_arr_init`. -/
def init (eltSize : ℕ) : SeqArr :=
  { data := List.replicate (minSize * eltSize) 0, size := 0, eltSize, cap := minSize }

/-- `seq_arr_push_back`; `none` if an assertion fails, or if the block is left. -/
def pushBack (fresh : ℕ → UInt8) (arr : SeqArr) (data : List UInt8) : Option SeqArr :=
  if data.length = arr.eltSize then do
    let arr := arr.maybeExpand fresh
    let offset := arr.size * arr.eltSize
    let block ← store arr.data offset data
    some { arr with data := block, size := arr.size + 1 }
  else none

/-- `seq_arr_end`; an iterator is the number of a byte. -/
def endIt (arr : SeqArr) : ℕ := arr.size * arr.eltSize

/-- `seq_arr_at`, without its assertion: the iterator of an element, or the one behind them. -/
def iter (arr : SeqArr) (pos : ℕ) : ℕ := pos * arr.eltSize

/-- `seq_arr_erase` of FlexRIC, and `seq_arr_erase_it` of OAI but for the calls of `free_func`,
which do not change the array; `none` if an assertion fails, or if a block is left. -/
def erase (arr : SeqArr) (startIt endIt : ℕ) : Option SeqArr :=
  if endIt < startIt then none
  else if startIt = endIt then some arr
  else
    let numBytesMove := toInt (arr.endIt - endIt)
    if numBytesMove > -1 then do
      let moved ← load arr.data endIt (toSize numBytesMove)
      let data ← store arr.data startIt moved
      let numBytesErase := toInt (endIt - startIt)
      let numElmErase := toInt (toSize numBytesErase / arr.eltSize : ℕ)
      if numElmErase > 0 then do
        let arr := { arr with data, size := subSize arr.size numElmErase }
        let data ← store arr.data arr.endIt (List.replicate (toSize numBytesErase) 0)
        { arr with data }.maybeShrink
      else none
    else none

/-- An array that is made smaller has less elements than a quarter of its capacity. -/
theorem lt_of_shrinks {size k : ℕ} (h : shrinks size (2 ^ k) = true) :
    minSize < size ∧ 4 * size < 2 ^ k := by
  rw [shrinks, Bool.and_eq_true, decide_eq_true_eq, decide_eq_true_eq, toFloat, toFloat,
    Rounding.leadingBits_two_pow (by decide)] at h
  refine ⟨h.1, ?_⟩
  by_contra hge
  have hmin : 8 < size := h.1
  obtain ⟨l, rfl⟩ : ∃ l, k = l + 2 := by
    refine ⟨k - 2, ?_⟩
    have hpow : 2 ^ 5 < 2 ^ k := by
      by_contra hsmall
      have hfloat : 2 ^ 3 ≤ Rounding.leadingBits 24 size :=
        Rounding.two_pow_le_leadingBits (by decide) (by omega)
      omega
    have hk : 5 < k := (Nat.pow_lt_pow_iff_right (by decide)).mp hpow
    omega
  have hpow : 2 ^ (l + 2) = 4 * 2 ^ l := by
    rw [Nat.pow_add, Nat.mul_comm]
  have hle : 2 ^ l ≤ Rounding.leadingBits 24 size :=
    Rounding.two_pow_le_leadingBits (by decide) (by omega)
  omega

/-! ### The elements of an array -/

/-- The array has these elements. -/
structure Stores (xs : List (List UInt8)) (arr : SeqArr) : Prop where
  pos : 0 < arr.eltSize
  isCap : ∃ k, 3 ≤ k ∧ arr.cap = 2 ^ k
  size : arr.size = xs.length
  lt : arr.size < arr.cap
  elems : xs.flatten <+: arr.data
  lengths : ∀ x ∈ xs, x.length = arr.eltSize

/-- The array has these elements, in a block with room for all that the capacity counts. -/
structure Holds (xs : List (List UInt8)) (arr : SeqArr) : Prop extends Stores xs arr where
  room : arr.cap * arr.eltSize ≤ arr.data.length

variable {xs ys zs : List (List UInt8)} {arr : SeqArr} {x : List UInt8}

theorem stores_init {eltSize : ℕ} (h : 0 < eltSize) : (init eltSize).Stores [] where
  pos := h
  isCap := ⟨3, Nat.le_refl 3, rfl⟩
  size := rfl
  lt := by
    change 0 < 8
    decide
  elems := List.nil_prefix
  lengths := List.forall_mem_nil _

theorem holds_init {eltSize : ℕ} (h : 0 < eltSize) : (init eltSize).Holds [] :=
  ⟨stores_init h, List.length_replicate.ge⟩

theorem length_flatten_of_forall {eltSize : ℕ} (h : ∀ x ∈ xs, x.length = eltSize) :
    xs.flatten.length = xs.length * eltSize := by
  rw [List.length_flatten, List.map_congr_left h, List.map_const', List.sum_replicate_nat]

theorem Stores.length_flatten (h : arr.Stores xs) : xs.flatten.length = arr.endIt := by
  rw [length_flatten_of_forall h.lengths, endIt, h.size]

/-- An array grows before its last place is taken, and has room for all its capacity then. -/
theorem Stores.maybeExpand (h : arr.Stores xs) (fresh : ℕ → UInt8) :
    (arr.maybeExpand fresh).Stores xs ∧ arr.size + 1 < (arr.maybeExpand fresh).cap ∧
      (arr.maybeExpand fresh).size = arr.size ∧
      (arr.maybeExpand fresh).eltSize = arr.eltSize ∧
      (arr.maybeExpand fresh).cap = (if arr.size + 1 = arr.cap then arr.cap * 2 else arr.cap) ∧
      (arr.maybeExpand fresh).data.length =
        (if arr.size + 1 = arr.cap then 2 * arr.cap * arr.eltSize else arr.data.length) := by
  have hlt := h.lt
  unfold SeqArr.maybeExpand
  split_ifs with hfull
  · obtain ⟨k, hk, hcap⟩ := h.isCap
    obtain ⟨post, hpost⟩ := h.elems
    have hlength := h.length_flatten
    have hle : xs.flatten.length ≤ 2 * arr.cap * arr.eltSize := by
      rw [hlength, endIt]
      exact Nat.mul_le_mul_right _ (by omega)
    obtain ⟨post', hpost'⟩ := realloc_append fresh xs.flatten post hle
    refine ⟨⟨h.pos, ⟨k + 1, by omega, ?_⟩, h.size, ?_, ?_, h.lengths⟩, ?_, rfl, rfl, rfl, ?_⟩
    · dsimp only
      rw [hcap, Nat.pow_succ]
    · dsimp only
      omega
    · dsimp only
      rw [← hpost, hpost']
      exact List.prefix_append _ _
    · dsimp only
      omega
    · exact length_realloc ..
  · exact ⟨h, by omega, rfl, rfl, rfl, rfl⟩

/-- An element is pushed if it is in the block; otherwise the block is left. -/
theorem Stores.pushBack (h : arr.Stores xs) (hx : x.length = arr.eltSize) (fresh : ℕ → UInt8)
    (hfit : (arr.size + 1) * arr.eltSize ≤ (arr.maybeExpand fresh).data.length) :
    ∃ arr', arr.pushBack fresh x = some arr' ∧ arr'.Stores (xs ++ [x]) ∧
      arr'.cap = (arr.maybeExpand fresh).cap ∧
      arr'.data.length = (arr.maybeExpand fresh).data.length ∧ arr'.eltSize = arr.eltSize := by
  obtain ⟨hexpand, hroom, hsize, helt, -, -⟩ := h.maybeExpand fresh
  rw [SeqArr.pushBack, if_pos hx]
  generalize arr.maybeExpand fresh = big at hexpand hroom hsize helt hfit
  rw [← hsize, ← helt, Nat.succ_mul] at hfit
  rw [← hsize] at hroom
  rw [← helt] at hx ⊢
  obtain ⟨post, hpost⟩ := hexpand.elems
  have hend := hexpand.length_flatten
  rw [endIt] at hend
  -- the bytes behind the elements are the place of the new one, and others
  have hlength := congrArg List.length hpost
  rw [List.length_append, hend] at hlength
  have hold : (post.take x.length).length = x.length := List.length_take_of_le (by omega)
  have hstore := store_append xs.flatten (post.take x.length) (post.drop x.length) hold
  rw [List.take_append_drop, hpost, hend] at hstore
  refine ⟨{ big with
    data := xs.flatten ++ (x ++ post.drop x.length)
    size := big.size + 1 }, ?_, ?_, rfl, ?_, rfl⟩
  · dsimp only
    rw [hstore, Option.bind_eq_bind, Option.bind_some]
  · refine ⟨hexpand.pos, hexpand.isCap, ?_, hroom, ?_, ?_⟩
    · rw [List.length_append, ← hexpand.size]
      rfl
    · rw [List.flatten_append, List.flatten_singleton, ← List.append_assoc]
      exact List.prefix_append _ _
    · intro y hy
      rcases List.mem_append.mp hy with hy | hy
      · exact hexpand.lengths y hy
      · rw [List.mem_singleton.mp hy]
        exact hx
  · exact length_of_store hstore

theorem Holds.pushBack (h : arr.Holds xs) (hx : x.length = arr.eltSize) (fresh : ℕ → UInt8) :
    ∃ arr', arr.pushBack fresh x = some arr' ∧ arr'.Holds (xs ++ [x]) := by
  obtain ⟨-, hlt, -, -, hcap, hlength⟩ := h.maybeExpand fresh
  have hroom : (arr.maybeExpand fresh).cap * arr.eltSize ≤ (arr.maybeExpand fresh).data.length := by
    rw [hcap, hlength]
    split_ifs
    · rw [Nat.mul_comm 2]
    · exact h.room
  obtain ⟨arr', hpush, hstores, hcap', hlength', helt⟩ :=
    h.toStores.pushBack hx fresh ((Nat.mul_le_mul_right _ hlt.le).trans hroom)
  exact ⟨arr', hpush, hstores, by rw [hcap', hlength', helt]; exact hroom⟩

/-! ### Erasing elements -/

theorem toInt_of_lt {n : ℕ} (h : n < 2 ^ 31) : toInt n = n := by
  rw [toInt]
  exact Int.bmod_eq_of_le_mul_two (by omega) (by omega)

theorem toSize_of_lt {n : ℕ} (h : n < 2 ^ 64) : toSize n = n := by
  rw [toSize]
  omega

theorem subSize_of_le {size n : ℕ} (h : n ≤ size) : subSize size n = size - n := by
  rw [subSize, if_pos (Int.ofNat_le.mpr h)]
  omega

theorem natCast_add_sub (m n : ℕ) : ((m + n : ℕ) : ℤ) - (m : ℕ) = (n : ℕ) := by omega

/-- The numbers of bytes and of elements that are computed for an erasure. -/
theorem erase_sizes {elt a b c : ℕ} (hpos : 0 < elt) (hmove : c * elt < 2 ^ 31)
    (herase : b * elt < 2 ^ 31) :
    toInt (((a + b + c) * elt : ℕ) - ((a + b) * elt : ℕ)) = (c * elt : ℕ) ∧
      toInt (((a + b) * elt : ℕ) - (a * elt : ℕ)) = (b * elt : ℕ) ∧
      toSize (c * elt : ℕ) = c * elt ∧ toSize (b * elt : ℕ) = b * elt ∧
      toInt ((b * elt / elt : ℕ)) = (b : ℕ) := by
  refine ⟨?_, ?_, toSize_of_lt (by omega), toSize_of_lt (by omega), ?_⟩
  · rw [Nat.add_mul (a + b), natCast_add_sub]
    exact toInt_of_lt hmove
  · rw [Nat.add_mul, natCast_add_sub]
    exact toInt_of_lt herase
  · rw [Nat.mul_div_cancel _ hpos]
    apply toInt_of_lt
    exact (Nat.le_mul_of_pos_right b hpos).trans_lt herase

/-- The elements behind a range are moved over it, and the bytes behind them are cleared. -/
theorem Stores.erase_eq (h : Stores (xs ++ (ys ++ zs)) arr) (hys : ys ≠ [])
    (hmove : zs.length * arr.eltSize < 2 ^ 31) (herase : ys.length * arr.eltSize < 2 ^ 31) :
    ∃ arr' : SeqArr,
      arr.erase (arr.iter xs.length) (arr.iter (xs.length + ys.length)) = arr'.maybeShrink ∧
        arr'.Stores (xs ++ zs) ∧ arr'.cap = arr.cap ∧ arr'.eltSize = arr.eltSize ∧
        arr'.data.length = arr.data.length := by
  obtain ⟨rest, hrest⟩ := h.elems
  have hpos := h.pos
  have hcount : 0 < ys.length := List.length_pos_iff.mpr hys
  have hsize : arr.size = xs.length + ys.length + zs.length := by
    rw [h.size, List.length_append, List.length_append, Nat.add_assoc]
  have hfewer : xs.length + zs.length ≤ arr.size := by
    rw [hsize]
    exact Nat.add_le_add_right (Nat.le_add_right _ _) _
  have hlengths : ∀ ws : List (List UInt8), (∀ w ∈ ws, w ∈ xs ++ (ys ++ zs)) →
      ws.flatten.length = ws.length * arr.eltSize := fun ws hws =>
    length_flatten_of_forall fun w hw => h.lengths w (hws w hw)
  have hx := hlengths xs fun w hw => List.mem_append_left _ hw
  have hy := hlengths ys fun w hw => List.mem_append_right _ (List.mem_append_left _ hw)
  have hz := hlengths zs fun w hw => List.mem_append_right _ (List.mem_append_right _ hw)
  obtain ⟨hmoveInt, heraseInt, hmoveSize, heraseSize, helms⟩ :=
    erase_sizes (a := xs.length) hpos hmove herase
  rw [← hsize] at hmoveInt
  obtain ⟨data, hload, hstore, hclear⟩ :=
    move_append xs.flatten ys.flatten zs.flatten rest (0 : UInt8)
  rw [List.flatten_append, List.flatten_append, List.append_assoc, List.append_assoc] at hrest
  rw [hrest, hx, hy, hz, ← Nat.add_mul] at hload
  rw [hrest, hx] at hstore
  rw [hx, hy, hz, ← Nat.add_mul] at hclear
  have hne : arr.iter xs.length ≠ arr.iter (xs.length + ys.length) := by
    rw [iter, iter, Nat.add_mul]
    have hbytes := Nat.mul_pos hcount hpos
    omega
  have hle : ¬ arr.iter (xs.length + ys.length) < arr.iter xs.length :=
    Nat.not_lt.mpr (Nat.mul_le_mul_right _ (Nat.le_add_right _ _))
  have hnonneg : ((zs.length * arr.eltSize : ℕ) : ℤ) > -1 :=
    Int.lt_of_lt_of_le (by decide) (Int.natCast_nonneg _)
  have hcountInt : ((ys.length : ℕ) : ℤ) > 0 := Int.natCast_pos.mpr hcount
  have hsub : subSize arr.size ys.length = xs.length + zs.length := by
    rw [subSize_of_le (by omega)]
    omega
  refine ⟨{ arr with
    data := xs.flatten ++ (zs.flatten ++ (List.replicate (ys.length * arr.eltSize) 0 ++ rest))
    size := xs.length + zs.length }, ?_, ?_, rfl, rfl, ?_⟩
  · rw [SeqArr.erase, if_neg hle, if_neg hne]
    simp only [iter, endIt, hmoveInt, if_pos hnonneg, hmoveSize, hload, hstore, heraseInt, helms,
      if_pos hcountInt, hsub, heraseSize, hclear, Option.bind_eq_bind, Option.bind_some]
  · refine ⟨hpos, h.isCap, ?_, ?_, ?_, ?_⟩
    · exact (List.length_append ..).symm
    · exact Nat.lt_of_le_of_lt hfewer h.lt
    · dsimp only
      rw [List.flatten_append, ← List.append_assoc]
      exact List.prefix_append _ _
    · intro w hw
      apply h.lengths
      rcases List.mem_append.mp hw with hw | hw
      · exact List.mem_append_left _ hw
      · exact List.mem_append_right _ (List.mem_append_right _ hw)
  · dsimp only
    rw [length_of_store hclear, length_of_store hstore]

/-- An array that is made smaller gets a block of the square of its new capacity, and its elements
are copied if they are in it. -/
theorem Stores.maybeShrink_of_shrinks (h : arr.Stores xs)
    (hs : shrinks arr.size arr.cap = true)
    (hfit : arr.size * arr.eltSize ≤ arr.cap / 2 * (arr.cap / 2)) :
    ∃ data, arr.maybeShrink = some { arr with data, cap := arr.cap / 2 } ∧
      data.length = arr.cap / 2 * (arr.cap / 2) ∧
      ({ arr with data, cap := arr.cap / 2 } : SeqArr).Stores xs := by
  obtain ⟨k, hk, hcap⟩ := h.isCap
  obtain ⟨hmin, hquarter⟩ := lt_of_shrinks (hcap ▸ hs)
  rw [← hcap] at hquarter
  have hlt := h.lt
  obtain ⟨rest, hrest⟩ := h.elems
  have hlength := h.length_flatten
  rw [endIt] at hlength
  have hload := load_append [] xs.flatten rest
  rw [List.nil_append, hrest, hlength, List.length_nil] at hload
  have hroom : 0 + xs.flatten.length ≤
      (List.replicate (arr.cap / 2 * (arr.cap / 2)) (0 : UInt8)).length := by
    rw [List.length_replicate, hlength, Nat.zero_add]
    exact hfit
  obtain ⟨data, hstore, hdata⟩ : ∃ data,
      store (List.replicate (arr.cap / 2 * (arr.cap / 2)) (0 : UInt8)) 0 xs.flatten = some data ∧
        xs.flatten <+: data := by
    rw [store_of_le hroom, List.take_zero, List.nil_append]
    exact ⟨_, rfl, List.prefix_append _ _⟩
  have hbig : arr.cap > minSize := hmin.trans hlt
  have hhalf : arr.size < arr.cap / 2 := by omega
  refine ⟨data, ?_, ?_, h.pos, ⟨k - 1, ?_, ?_⟩, h.size, hhalf, hdata, h.lengths⟩
  · rw [SeqArr.maybeShrink, if_pos hs, if_pos hbig]
    simp only [if_pos hhalf.le, hload, hstore, Option.bind_eq_bind, Option.bind_some]
  · rw [length_of_store hstore, List.length_replicate]
  · -- the capacity was more than four times the least size
    by_contra hsmall
    have hle : 2 ^ k ≤ 2 ^ 3 := Nat.pow_le_pow_right (by decide) (by omega)
    have hmin' : 8 < arr.size := hmin
    omega
  · obtain ⟨l, rfl⟩ : ∃ l, k = l + 1 := ⟨k - 1, by omega⟩
    dsimp only
    rw [hcap, Nat.pow_succ, Nat.mul_div_cancel _ (by decide), Nat.add_sub_cancel]

theorem Holds.maybeShrink (h : arr.Holds xs)
    (hfit : shrinks arr.size arr.cap = true → arr.eltSize ≤ arr.cap / 2) :
    ∃ arr', arr.maybeShrink = some arr' ∧ arr'.Holds xs := by
  by_cases hs : shrinks arr.size arr.cap = true
  · obtain ⟨k, -, hcap⟩ := h.isCap
    have hquarter := (lt_of_shrinks (hcap ▸ hs)).2
    rw [← hcap] at hquarter
    obtain ⟨data, hshrink, hlength, hstores⟩ :=
      h.maybeShrink_of_shrinks hs (Nat.mul_le_mul (by omega) (hfit hs))
    refine ⟨_, hshrink, hstores, ?_⟩
    dsimp only
    rw [hlength]
    exact Nat.mul_le_mul_left _ (hfit hs)
  · exact ⟨arr, by rw [SeqArr.maybeShrink, if_neg hs], h⟩

/-- The elements between two positions are erased. -/
theorem Holds.erase (h : arr.Holds xs) {i j : ℕ} (hij : i ≤ j) (hj : j ≤ xs.length)
    (hmove : i < j → (xs.length - j) * arr.eltSize < 2 ^ 31)
    (herase : i < j → (j - i) * arr.eltSize < 2 ^ 31)
    (hfit : i < j → shrinks (xs.length - (j - i)) arr.cap = true → arr.eltSize ≤ arr.cap / 2) :
    ∃ arr', arr.erase (arr.iter i) (arr.iter j) = some arr' ∧
      arr'.Holds (xs.take i ++ xs.drop j) := by
  rcases Nat.eq_or_lt_of_le hij with rfl | hlt
  · rw [List.take_append_drop]
    exact ⟨arr, by rw [SeqArr.erase, if_neg (Nat.lt_irrefl _), if_pos rfl], h⟩
  · -- the elements before the range, in it and behind it
    have hsplit : xs.take i ++ ((xs.drop i).take (j - i) ++ xs.drop j) = xs := by
      have hrest : xs.drop j = (xs.drop i).drop (j - i) := by
        rw [List.drop_drop, Nat.add_sub_cancel' hij]
      rw [hrest, List.take_append_drop, List.take_append_drop]
    have hpre : (xs.take i).length = i := List.length_take_of_le (hij.trans hj)
    have hmid : ((xs.drop i).take (j - i)).length = j - i :=
      List.length_take_of_le (by rw [List.length_drop]; omega)
    have hne : (xs.drop i).take (j - i) ≠ [] := List.length_pos_iff.mp (by omega)
    have hpost : (xs.drop j).length = xs.length - j := List.length_drop
    obtain ⟨arr', heq, hstores, hcap, helt, hlength⟩ := Stores.erase_eq
      (hsplit.symm ▸ h.toStores) hne (hpost.symm ▸ hmove hlt) (hmid.symm ▸ herase hlt)
    rw [hpre, hmid, Nat.add_sub_cancel' hij] at heq
    have hholds : arr'.Holds (xs.take i ++ xs.drop j) :=
      ⟨hstores, by rw [hcap, helt, hlength]; exact h.room⟩
    have hsize : arr'.size = xs.length - (j - i) := by
      rw [hholds.size, List.length_append, hpre, hpost]
      omega
    obtain ⟨arr'', hshrink, hholds'⟩ := hholds.maybeShrink fun hs => by
      rw [hcap, helt]
      exact hfit hlt (hsize ▸ hcap ▸ hs)
    exact ⟨arr'', heq.trans hshrink, hholds'⟩

end SeqArr

/-! ### Runs -/

/-- The operations on an array: an element is pushed, or those between two positions are erased. -/
inductive SeqArrOp where
  | push (x : List UInt8)
  | erase (start stop : ℕ)
  deriving DecidableEq

namespace SeqArrOp

/-- An operation on the array; `none` if an assertion fails, or if a block is left. -/
def step (fresh : ℕ → UInt8) (arr : SeqArr) : SeqArrOp → Option (Unit × SeqArr)
  | push x => (arr.pushBack fresh x).map ((), ·)
  | erase start stop => (arr.erase (arr.iter start) (arr.iter stop)).map ((), ·)

/-- An operation on a sequence. -/
def specStep (xs : List (List UInt8)) : SeqArrOp → Option (Unit × List (List UInt8))
  | push x => some ((), xs ++ [x])
  | erase start stop => some ((), xs.take start ++ xs.drop stop)

/-- An element has the right size, and a range is one of the array. -/
def Valid (xs : List (List UInt8)) (arr : SeqArr) : SeqArrOp → Prop
  | push x => x.length = arr.eltSize
  | erase start stop => start ≤ stop ∧ stop ≤ xs.length

/-- An erasure moves and erases less bytes than an `int` counts, and if it makes the array smaller
the elements are not larger than the new capacity. -/
def Sound (xs : List (List UInt8)) (arr : SeqArr) : SeqArrOp → Prop
  | push _ => True
  | erase start stop => start < stop →
    (xs.length - stop) * arr.eltSize < 2 ^ 31 ∧ (stop - start) * arr.eltSize < 2 ^ 31 ∧
      (SeqArr.shrinks (xs.length - (stop - start)) arr.cap = true → arr.eltSize ≤ arr.cap / 2)

instance (xs : List (List UInt8)) (arr : SeqArr) : DecidablePred (Valid xs arr)
  | push x => inferInstanceAs (Decidable (x.length = arr.eltSize))
  | erase start stop => inferInstanceAs (Decidable (start ≤ stop ∧ stop ≤ xs.length))

instance (xs : List (List UInt8)) (arr : SeqArr) : DecidablePred (Sound xs arr)
  | push _ => inferInstanceAs (Decidable True)
  | erase start stop => inferInstanceAs (Decidable (start < stop →
    (xs.length - stop) * arr.eltSize < 2 ^ 31 ∧ (stop - start) * arr.eltSize < 2 ^ 31 ∧
      (SeqArr.shrinks (xs.length - (stop - start)) arr.cap = true → arr.eltSize ≤ arr.cap / 2)))

end SeqArrOp

/-- Sound operations do to the array what they do to the sequence. -/
theorem seqArrOp_refines (fresh : ℕ → UInt8) :
    Refines SeqArrOp.specStep (SeqArrOp.step fresh)
      (fun xs arr op => op.Valid xs arr ∧ op.Sound xs arr) (fun xs arr => arr.Holds xs) := by
  intro xs arr op h hop
  obtain ⟨hvalid, hsound⟩ := hop
  cases op with
  | push x =>
    obtain ⟨arr', hpush, harr'⟩ := h.pushBack hvalid fresh
    rw [SeqArrOp.step, hpush]
    exact ⟨rfl, harr'⟩
  | erase start stop =>
    obtain ⟨arr', herase, harr'⟩ := h.erase hvalid.1 hvalid.2 (fun hlt => (hsound hlt).1)
      (fun hlt => (hsound hlt).2.1) (fun hlt => (hsound hlt).2.2)
    rw [SeqArrOp.step, herase]
    exact ⟨rfl, harr'⟩

/-- Elements of 33 bytes make an array grow to a capacity of 64, and all but nine are erased. -/
def shrinkingOps : List SeqArrOp :=
  List.replicate 32 (.push (List.replicate 33 0)) ++ [.erase 9 32]

/-- No sequence is in a block that has no room for what the capacity counts. -/
theorem not_matches_of_length_lt {x : Option (List Unit × List (List UInt8))}
    {y : Option (List Unit × SeqArr)}
    (h : y.any fun last => last.2.data.length < last.2.cap * last.2.eltSize) :
    ¬ Matches (fun xs arr => arr.Holds xs) x y := by
  intro hmatch
  cases y with
  | none => cases h
  | some last =>
    cases x with
    | none => exact hmatch
    | some next =>
      have hroom := hmatch.2.room
      have hlt : last.2.data.length < last.2.cap * last.2.eltSize := by simpa using h
      omega

theorem allowedAlong_shrinkingOps :
    AllowedAlong SeqArrOp.specStep (SeqArrOp.step fun _ => 0) SeqArrOp.Valid [] (SeqArr.init 33)
      shrinkingOps := by
  decide +kernel

/-- The block is one of 1024 bytes then, for a capacity of 32 elements. -/
theorem runs_shrinkingOps :
    (runs (SeqArrOp.step fun _ => 0) (SeqArr.init 33) shrinkingOps).any
      fun last => last.2.data.length < last.2.cap * last.2.eltSize := by
  decide +kernel

end LlmHric.Flexric
