import LlmHric.Library.Blocks
import LlmHric.Library.Refinement
import Mathlib.Data.Nat.ModEq

/-! A `seq_ring_t` stores elements in a block, from the position of its tail on up to that of its
head. The two are 32-bit counters that go on running, and their positions are what is left of them
by the capacity, a power of two that doubles when the ring is full. The thread-safe queues push at
the end of a ring and pop from the front of it. -/

namespace LlmHric.Flexric

open Blocks Refinement

/-- `seq_ring_t`. The block is a list of elements; their size is that of a cell. -/
structure SeqRing (α : Type) where
  array : List α
  cap : ℕ
  head : UInt32
  tail : UInt32
  deriving DecidableEq

namespace SeqRing

variable {α : Type}

/-- `DEFAULT_ELM`. -/
def defaultElm : ℕ := 32

/-- `mask`. -/
def mask (cap val : UInt32) : UInt32 := val &&& (cap - 1)

/-- `seq_ring_size`. -/
def size (r : SeqRing α) : ℕ := (r.head - r.tail).toNat

/-- `full`. -/
def full (r : SeqRing α) : Bool := r.size == r.cap - 1

/-- `enlarge_buffer`, with what `calloc` fills the block with; `none` if the block is left. -/
def enlargeBuffer (zero : α) (r : SeqRing α) : Option (SeqRing α) := do
  let factor := 2
  let tmpBuffer := List.replicate (r.cap * factor) zero
  let headPos := mask (.ofNat r.cap) r.head
  let tailPos := mask (.ofNat r.cap) r.tail
  let tmpBuffer ← if headPos > tailPos then do
      let elms ← load r.array tailPos.toNat (headPos - tailPos).toNat
      store tmpBuffer 0 elms
    else do
      let elms ← load r.array tailPos.toNat (r.cap - tailPos.toNat)
      let tmpBuffer ← store tmpBuffer 0 elms
      let elms ← load r.array 0 headPos.toNat
      store tmpBuffer (r.cap - tailPos.toNat) elms
  let cap := r.cap * factor
  some { array := tmpBuffer, cap, head := .ofNat (cap / 2 - 1), tail := 0 }

/-- `seq_ring_init`. -/
def init (zero : α) : SeqRing α :=
  { array := List.replicate defaultElm zero, cap := defaultElm, head := 0, tail := 0 }

/-- `seq_ring_push_back`. -/
def pushBack (zero : α) (r : SeqRing α) (data : α) : Option (SeqRing α) := do
  let r ← if r.full then r.enlargeBuffer zero else some r
  let pos := mask (.ofNat r.cap) r.head
  let array ← store r.array pos.toNat [data]
  some { r with array, head := r.head + 1 }

/-- `seq_ring_front`; an iterator is the number of a cell. -/
def front (r : SeqRing α) : ℕ := (mask (.ofNat r.cap) r.tail).toNat

/-- `seq_ring_end`. -/
def endIt (r : SeqRing α) : ℕ := (mask (.ofNat r.cap) r.head).toNat

/-- `seq_ring_next`. -/
def next (r : SeqRing α) (it : ℕ) : ℕ :=
  let pos := UInt32.ofNat it
  if (pos + 1).toNat = r.cap then 0 else it + 1

/-- `seq_ring_erase`; `none` if an assertion fails, or if the block is left. -/
def erase (zero : α) (r : SeqRing α) (itStart itEnd : ℕ) : Option (SeqRing α) :=
  if itStart ≠ r.front then none
  else if itStart = itEnd then some r
  else
    let startPos := UInt32.ofNat itStart
    let endPos := UInt32.ofNat itEnd
    if r.cap < endPos.toNat ∨ endPos = startPos then none
    else do
      let r ← if endPos > startPos then do
          let array ← store r.array itStart (List.replicate (endPos - startPos).toNat zero)
          some { r with array, tail := r.tail + (endPos - startPos) }
        else do
          let array ← store r.array itStart (List.replicate (r.cap - startPos.toNat) zero)
          let array ← store array 0 (List.replicate endPos.toNat zero)
          some { r with
            array
            tail := r.tail + .ofNat (r.cap - startPos.toNat + endPos.toNat) }
      if mask (.ofNat r.cap) r.tail = endPos then some r else none

/-- `push_tsq`. -/
def pushTsq (zero : α) (r : SeqRing α) (val : α) : Option (SeqRing α) := r.pushBack zero val

/-- `pop_tsq`. -/
def popTsq (zero : α) (r : SeqRing α) : Option (α × SeqRing α) :=
  if r.size = 0 then none
  else do
    let it := r.front
    let val ← r.array[it]?
    if it = r.endIt then none
    else do
      let next := r.next it
      let r ← r.erase zero it next
      some (val, r)

/-- `size_tsq`. -/
def sizeTsq (r : SeqRing α) : ℕ := r.size

/-- Capacities that the counters can be masked by. -/
def IsCap (cap : ℕ) : Prop := ∃ k, 0 < k ∧ k ≤ 32 ∧ cap = 2 ^ k

variable {cap : ℕ}

theorem IsCap.le (h : IsCap cap) : cap ≤ 2 ^ 32 := by
  obtain ⟨k, -, hk, rfl⟩ := h
  exact Nat.pow_le_pow_right (by decide) hk

theorem IsCap.two_le (h : IsCap cap) : 2 ≤ cap := by
  obtain ⟨k, hk, -, rfl⟩ := h
  calc 2 = 2 ^ 1 := rfl
    _ ≤ 2 ^ k := Nat.pow_le_pow_right (by decide) hk

theorem IsCap.dvd (h : IsCap cap) : cap ∣ 2 ^ 32 := by
  obtain ⟨k, -, hk, rfl⟩ := h
  exact Nat.pow_dvd_pow 2 hk

theorem IsCap.double (h : IsCap cap) (hlt : cap < 2 ^ 32) : IsCap (cap * 2) := by
  obtain ⟨k, -, -, rfl⟩ := h
  have hk : k < 32 := (Nat.pow_lt_pow_iff_right (by decide)).mp hlt
  exact ⟨k + 1, Nat.succ_pos k, hk, (Nat.pow_succ ..).symm⟩

theorem toNat_ofNat_sub_one (hpos : 0 < cap) (hle : cap ≤ 2 ^ 32) :
    (UInt32.ofNat cap - 1).toNat = cap - 1 := by
  rw [UInt32.toNat_sub, UInt32.toNat_ofNat', UInt32.toNat_one]
  omega

/-- The position of a counter is what is left of it by the capacity. -/
theorem toNat_mask (h : IsCap cap) (val : UInt32) :
    (mask (.ofNat cap) val).toNat = val.toNat % cap := by
  have hcap := toNat_ofNat_sub_one (Nat.zero_lt_of_lt h.two_le) h.le
  obtain ⟨k, -, -, rfl⟩ := h
  rw [mask, UInt32.toNat_and, hcap, Nat.and_two_pow_sub_one_eq_mod]

/-- A counter that runs over has the position that goes on. -/
theorem toNat_add_mod (h : IsCap cap) (val : UInt32) (n : ℕ) :
    (val + UInt32.ofNat n).toNat % cap = (val.toNat + n) % cap := by
  rw [UInt32.toNat_add, UInt32.toNat_ofNat', Nat.mod_mod_of_dvd _ h.dvd, Nat.add_mod,
    Nat.mod_mod_of_dvd _ h.dvd, ← Nat.add_mod]

/-! ### The elements of a ring -/

/-- The ring has these elements, from the position of the tail on. -/
structure Holds (q : List α) (r : SeqRing α) : Prop where
  isCap : IsCap r.cap
  length_array : r.array.length = r.cap
  lt : q.length < r.cap
  head : r.head = r.tail + UInt32.ofNat q.length
  elems : ∀ i < q.length, r.array[(r.tail.toNat + i) % r.cap]? = q[i]?

variable {q : List α} {r : SeqRing α} {zero x : α}

theorem holds_init (zero : α) : (init zero).Holds [] where
  isCap := ⟨5, by decide, by decide, rfl⟩
  length_array := List.length_replicate
  lt := by
    change 0 < 32
    decide
  head := rfl
  elems i hi := absurd hi (Nat.not_lt_zero i)

/-- The counters count the elements. -/
theorem Holds.size (h : r.Holds q) : r.size = q.length := by
  have hlt : q.length < 2 ^ 32 := h.lt.trans_le h.isCap.le
  rw [SeqRing.size, h.head, UInt32.add_comm, UInt32.add_sub_cancel, UInt32.toNat_ofNat_of_lt' hlt]

theorem Holds.full_iff (h : r.Holds q) : r.full = true ↔ q.length = r.cap - 1 := by
  rw [SeqRing.full, h.size, beq_iff_eq]

theorem Holds.pos_head (h : r.Holds q) :
    (mask (.ofNat r.cap) r.head).toNat = (r.tail.toNat + q.length) % r.cap := by
  rw [toNat_mask h.isCap, h.head, toNat_add_mod h.isCap]

/-- Two positions of a ring that are less than a round apart are different. -/
theorem pos_ne {cap tail i j : ℕ} (hij : i < j) (hj : j < cap) :
    (tail + i) % cap ≠ (tail + j) % cap := by
  intro heq
  have hmod : i ≡ j [MOD cap] := Nat.ModEq.add_left_cancel' tail heq
  exact hij.ne (hmod.eq_of_lt_of_lt (hij.trans hj) hj)

/-- An element is written at the head of a ring that is not full. -/
theorem Holds.store_head (h : r.Holds q) (hroom : q.length + 1 < r.cap) (x : α) :
    ∃ array, store r.array (mask (.ofNat r.cap) r.head).toNat [x] = some array ∧
      Holds (q ++ [x]) { r with array, head := r.head + 1 } := by
  have hpos := h.pos_head
  have hin : (r.tail.toNat + q.length) % r.cap < r.cap :=
    Nat.mod_lt _ (Nat.zero_lt_of_lt hroom)
  have hle : (mask (.ofNat r.cap) r.head).toNat + [x].length ≤ r.array.length := by
    rw [hpos, h.length_array]
    exact hin
  refine ⟨_, store_of_le hle, ?_⟩
  have hstore := store_of_le hle
  generalize r.array.take _ ++ ([x] ++ r.array.drop _) = array at hstore
  refine ⟨h.isCap, (length_of_store hstore).trans h.length_array, ?_, ?_, ?_⟩
  · rw [List.length_append]
    exact hroom
  · dsimp only
    rw [h.head, List.length_append, UInt32.ofNat_add, ← UInt32.add_assoc]
    rfl
  · intro i hi
    dsimp only
    rw [List.length_append, List.length_singleton] at hi
    rcases Nat.lt_succ_iff_lt_or_eq.mp hi with hold | rfl
    · have hne := @pos_ne r.cap r.tail.toNat i q.length hold h.lt
      rw [getElem?_of_store_of_notMem hstore (by rw [hpos, List.length_singleton]; omega),
        h.elems i hold, List.getElem?_append_left hold]
    · have hnew := getElem?_of_store hstore (Nat.zero_lt_one : 0 < [x].length)
      rw [Nat.add_zero, hpos] at hnew
      rw [hnew, List.getElem?_append_right le_rfl, Nat.sub_self]

/-- The relocated elements stand at the start of the new block. -/
theorem holds_relocated {array : List α} (hcap : IsCap (r.cap * 2))
    (hlength : array.length = r.cap * 2) (hfull : q.length = r.cap - 1)
    (helems : ∀ i < q.length, array[i]? = q[i]?) :
    Holds q { array, cap := r.cap * 2, head := .ofNat (r.cap * 2 / 2 - 1), tail := 0 } := by
  have htwo := hcap.two_le
  refine ⟨hcap, hlength, by dsimp only; omega, ?_, ?_⟩
  · dsimp only
    rw [Nat.mul_div_cancel _ (by decide), ← hfull, UInt32.zero_add]
  · intro i hi
    dsimp only
    rw [UInt32.toNat_zero, Nat.zero_add, Nat.mod_eq_of_lt (by omega)]
    exact helems i hi

/-- A position that does not go round. -/
theorem pos_of_lt {cap tail i : ℕ} (h : tail % cap + i < cap) :
    (tail + i) % cap = tail % cap + i := by
  rw [← Nat.mod_add_mod, Nat.mod_eq_of_lt h]

/-- A position that goes round. -/
theorem pos_of_le {cap tail i : ℕ} (hi : i < cap) (h : cap ≤ tail % cap + i) :
    (tail + i) % cap = tail % cap + i - cap := by
  have htail : tail % cap < cap := Nat.mod_lt _ (Nat.zero_lt_of_lt hi)
  rw [← Nat.mod_add_mod, Nat.mod_eq_sub_mod h, Nat.mod_eq_of_lt (by omega)]

/-- A full ring whose tail is at the start of the block is one piece. -/
theorem Holds.relocate_straight (zero : α) (h : r.Holds q) (hfull : q.length = r.cap - 1)
    (htail : r.tail.toNat % r.cap = 0) :
    ∃ elms array, load r.array 0 (r.cap - 1) = some elms ∧
      store (List.replicate (r.cap * 2) zero) 0 elms = some array ∧
      array.length = r.cap * 2 ∧ ∀ i < q.length, array[i]? = q[i]? := by
  obtain ⟨elms, hload⟩ : ∃ elms, load r.array 0 (r.cap - 1) = some elms :=
    ⟨_, load_of_le (by rw [h.length_array]; omega)⟩
  have helms := length_of_load hload
  obtain ⟨array, hstore⟩ : ∃ array, store (List.replicate (r.cap * 2) zero) 0 elms = some array :=
    ⟨_, store_of_le (by rw [List.length_replicate]; omega)⟩
  refine ⟨elms, array, hload, hstore, ?_, ?_⟩
  · rw [length_of_store hstore, List.length_replicate]
  · intro i hi
    have hnew := getElem?_of_store hstore (show i < elms.length by omega)
    have hpos : (r.tail.toNat + i) % r.cap = i := by
      rw [pos_of_lt (by omega), htail, Nat.zero_add]
    rw [Nat.zero_add] at hnew
    rw [hnew, getElem?_of_load hload (by omega), Nat.zero_add, ← h.elems i hi, hpos]

/-- Otherwise it is one piece up to the end of the block, and one piece from the start on. -/
theorem Holds.relocate_wrapped (zero : α) (h : r.Holds q) (hfull : q.length = r.cap - 1)
    (htail : 0 < r.tail.toNat % r.cap) :
    ∃ elms array elms' array',
      load r.array (r.tail.toNat % r.cap) (r.cap - r.tail.toNat % r.cap) = some elms ∧
      store (List.replicate (r.cap * 2) zero) 0 elms = some array ∧
      load r.array 0 (r.tail.toNat % r.cap - 1) = some elms' ∧
      store array (r.cap - r.tail.toNat % r.cap) elms' = some array' ∧
      array'.length = r.cap * 2 ∧ ∀ i < q.length, array'[i]? = q[i]? := by
  have hlt : r.tail.toNat % r.cap < r.cap :=
    Nat.mod_lt _ (Nat.zero_lt_of_lt h.lt)
  have helem : ∀ i < q.length, r.array[(r.tail.toNat + i) % r.cap]? = q[i]? := h.elems
  have hposLt : ∀ i, r.tail.toNat % r.cap + i < r.cap →
      (r.tail.toNat + i) % r.cap = r.tail.toNat % r.cap + i := fun i => pos_of_lt
  have hposLe : ∀ i < r.cap, r.cap ≤ r.tail.toNat % r.cap + i →
      (r.tail.toNat + i) % r.cap = r.tail.toNat % r.cap + i - r.cap := fun i => pos_of_le
  have harray := h.length_array
  generalize r.tail.toNat % r.cap = tail at *
  obtain ⟨elms, hload⟩ : ∃ elms, load r.array tail (r.cap - tail) = some elms :=
    ⟨_, load_of_le (by omega)⟩
  have helms := length_of_load hload
  obtain ⟨array, hstore⟩ : ∃ array, store (List.replicate (r.cap * 2) zero) 0 elms = some array :=
    ⟨_, store_of_le (by rw [List.length_replicate]; omega)⟩
  have hlength := length_of_store hstore
  rw [List.length_replicate] at hlength
  obtain ⟨elms', hload'⟩ : ∃ elms', load r.array 0 (tail - 1) = some elms' :=
    ⟨_, load_of_le (by omega)⟩
  have helms' := length_of_load hload'
  obtain ⟨array', hstore'⟩ : ∃ array', store array (r.cap - tail) elms' = some array' :=
    ⟨_, store_of_le (by omega)⟩
  refine ⟨elms, array, elms', array', hload, hstore, hload', hstore', ?_, ?_⟩
  · rw [length_of_store hstore', hlength]
  · intro i hi
    rw [← helem i hi]
    by_cases hfirst : tail + i < r.cap
    · have hnew := getElem?_of_store hstore (show i < elms.length by omega)
      rw [Nat.zero_add] at hnew
      rw [getElem?_of_store_of_notMem hstore' (.inl (by omega)), hnew,
        getElem?_of_load hload (by omega), hposLt i hfirst]
    · -- the element is in the second piece
      obtain ⟨j, rfl⟩ : ∃ j, i = r.cap - tail + j := ⟨i - (r.cap - tail), by omega⟩
      rw [getElem?_of_store hstore' (by omega), getElem?_of_load hload' (by omega),
        hposLe _ (by omega) (by omega)]
      congr 1
      omega

/-- The elements stay when the block is relocated, as long as they can be counted. -/
theorem Holds.enlargeBuffer (h : r.Holds q) (hfull : q.length = r.cap - 1)
    (hcount : q.length + 1 < 2 ^ 32) (zero : α) :
    ∃ r', r.enlargeBuffer zero = some r' ∧ r'.Holds q ∧ r'.cap = r.cap * 2 := by
  have htwo := h.isCap.two_le
  have hcap : IsCap (r.cap * 2) := h.isCap.double (by omega)
  have htail := toNat_mask h.isCap r.tail
  have hhead := h.pos_head
  rw [hfull] at hhead
  rcases Nat.eq_zero_or_pos (r.tail.toNat % r.cap) with hzero | hpos
  · obtain ⟨elms, array, hload, hstore, hlength, helems⟩ :=
      h.relocate_straight zero hfull hzero
    rw [pos_of_lt (by omega), hzero, Nat.zero_add] at hhead
    have hgt : mask (.ofNat r.cap) r.head > mask (.ofNat r.cap) r.tail :=
      UInt32.lt_iff_toNat_lt.mpr (by omega)
    have hsub : (mask (.ofNat r.cap) r.head - mask (.ofNat r.cap) r.tail).toNat = r.cap - 1 := by
      rw [UInt32.toNat_sub_of_le _ _ (UInt32.le_iff_toNat_le.mpr (by omega))]
      omega
    refine ⟨_, ?_, holds_relocated hcap hlength hfull helems, rfl⟩
    rw [SeqRing.enlargeBuffer]
    simp only [if_pos hgt, hsub, htail, hzero, hload, hstore, Option.bind_eq_bind, Option.bind_some]
  · obtain ⟨elms, array, elms', array', hload, hstore, hload', hstore', hlength, helems⟩ :=
      h.relocate_wrapped zero hfull hpos
    rw [pos_of_le (by omega) (by omega)] at hhead
    have hpred : r.tail.toNat % r.cap + (r.cap - 1) - r.cap = r.tail.toNat % r.cap - 1 := by omega
    rw [hpred] at hhead
    have hgt : ¬ mask (.ofNat r.cap) r.head > mask (.ofNat r.cap) r.tail := fun hgt => by
      have hlt := UInt32.lt_iff_toNat_lt.mp hgt
      omega
    refine ⟨_, ?_, holds_relocated hcap hlength hfull helems, rfl⟩
    rw [SeqRing.enlargeBuffer]
    simp only [if_neg hgt, htail, hhead, hload, hstore, hload', hstore', Option.bind_eq_bind,
      Option.bind_some]

/-! ### The ends of a ring -/

theorem Holds.pushBack (h : r.Holds q) (hcount : q.length + 1 < 2 ^ 32) (zero x : α) :
    ∃ r', r.pushBack zero x = some r' ∧ r'.Holds (q ++ [x]) := by
  by_cases hfull : q.length = r.cap - 1
  · obtain ⟨r', henlarge, hr', hcap⟩ := h.enlargeBuffer hfull hcount zero
    have htwo := h.isCap.two_le
    obtain ⟨array, hstore, hpush⟩ := hr'.store_head (by omega) x
    refine ⟨_, ?_, hpush⟩
    rw [SeqRing.pushBack, if_pos (h.full_iff.mpr hfull), henlarge, Option.bind_eq_bind,
      Option.bind_some]
    simp only [hstore, Option.bind_eq_bind, Option.bind_some]
  · have hlt := h.lt
    obtain ⟨array, hstore, hpush⟩ := h.store_head (by omega) x
    refine ⟨_, ?_, hpush⟩
    rw [SeqRing.pushBack, if_neg (mt h.full_iff.mp hfull), Option.bind_eq_bind, Option.bind_some]
    simp only [hstore, Option.bind_eq_bind, Option.bind_some]

/-- The iterator behind the front has the position behind it. With the largest capacity it may
point behind the block, but `seq_ring_erase` takes 32 bits of it. -/
theorem toNat_next (hcap : IsCap r.cap) {it : ℕ} (hit : it < r.cap) :
    (UInt32.ofNat (r.next it)).toNat = (it + 1) % r.cap ∧ r.next it ≠ it := by
  have hle := hcap.le
  have htwo := hcap.two_le
  have hpos : (UInt32.ofNat it + 1).toNat = (it + 1) % 2 ^ 32 := by
    rw [UInt32.toNat_add, UInt32.toNat_ofNat_of_lt' (hit.trans_le hle), UInt32.toNat_one]
  rw [SeqRing.next, hpos, UInt32.toNat_ofNat']
  by_cases hlast : it + 1 = r.cap
  · rw [hlast, Nat.mod_self]
    split_ifs with hround
    · exact ⟨rfl, by omega⟩
    · have hmax : r.cap = 2 ^ 32 := by
        by_contra hne
        exact hround (Nat.mod_eq_of_lt (by omega))
      rw [hmax]
      exact ⟨Nat.mod_self _, by omega⟩
  · have hin : it + 1 < r.cap := by omega
    rw [Nat.mod_eq_of_lt (hin.trans_le hle), if_neg hlast, Nat.mod_eq_of_lt (hin.trans_le hle),
      Nat.mod_eq_of_lt hin]
    exact ⟨rfl, Nat.succ_ne_self it⟩

theorem store_nil (block : List α) : store block 0 [] = some block := by
  rw [store_of_le (Nat.zero_le _), List.take_zero, List.nil_append, List.nil_append,
    List.length_nil, List.drop_zero]

/-- The first element is erased. -/
theorem erase_front (hcap : IsCap r.cap) {array : List α} (zero : α)
    (hstore : store r.array r.front [zero] = some array) :
    r.erase zero r.front (r.next r.front) = some { r with array, tail := r.tail + 1 } := by
  have hfront : r.front = r.tail.toNat % r.cap := toNat_mask hcap r.tail
  have hin : r.front < r.cap := by
    rw [hfront]
    exact Nat.mod_lt _ (Nat.zero_lt_of_lt hcap.two_le)
  obtain ⟨hend, hne⟩ := toNat_next hcap hin
  have hle := hcap.le
  have htwo := hcap.two_le
  have hstart : (UInt32.ofNat r.front).toNat = r.front :=
    UInt32.toNat_ofNat_of_lt' (hin.trans_le hle)
  have hmod : (r.front + 1) % r.cap < r.cap := Nat.mod_lt _ (by omega)
  have hdiffer : ¬ (r.cap < (UInt32.ofNat (r.next r.front)).toNat ∨
      UInt32.ofNat (r.next r.front) = UInt32.ofNat r.front) := by
    rw [hend]
    intro hbad
    rcases hbad with hout | heq
    · omega
    · have hpos := congrArg UInt32.toNat heq
      rw [hend, hstart] at hpos
      have hshift : (r.front + 0) % r.cap ≠ (r.front + 1) % r.cap := pos_ne Nat.zero_lt_one htwo
      rw [Nat.add_zero, Nat.mod_eq_of_lt hin] at hshift
      exact hshift hpos.symm
  have htail : mask (.ofNat r.cap) (r.tail + 1) = UInt32.ofNat (r.next r.front) := by
    apply UInt32.toNat_inj.mp
    rw [toNat_mask hcap, hend, hfront, Nat.mod_add_mod]
    exact toNat_add_mod hcap r.tail 1
  rw [SeqRing.erase, if_neg (not_not.mpr rfl), if_neg hne.symm]
  dsimp only
  rw [if_neg hdiffer]
  by_cases hlast : r.front + 1 = r.cap
  · -- the element is the last one of the block
    have hzero : (UInt32.ofNat (r.next r.front)).toNat = 0 := by
      rw [hend, hlast, Nat.mod_self]
    have hgt : ¬ UInt32.ofNat (r.next r.front) > UInt32.ofNat r.front := fun hgt => by
      have hlt := UInt32.lt_iff_toNat_lt.mp hgt
      omega
    have hone : r.cap - r.front = 1 := by omega
    rw [if_neg hgt]
    simp only [hstart, hone, hzero, List.replicate_one, List.replicate_zero, hstore, store_nil,
      Option.bind_eq_bind, Option.bind_some, Nat.add_zero]
    exact if_pos htail
  · have hnext : (UInt32.ofNat (r.next r.front)).toNat = r.front + 1 := by
      rw [hend, Nat.mod_eq_of_lt (by omega)]
    have hgt : UInt32.ofNat (r.next r.front) > UInt32.ofNat r.front :=
      UInt32.lt_iff_toNat_lt.mpr (by omega)
    have hone : UInt32.ofNat (r.next r.front) - UInt32.ofNat r.front = 1 := by
      apply UInt32.toNat_inj.mp
      rw [UInt32.toNat_sub_of_le _ _ (UInt32.le_iff_toNat_le.mpr (by omega)), hnext, hstart,
        Nat.add_sub_cancel_left]
      rfl
    rw [if_pos hgt]
    simp only [hone, UInt32.toNat_one, List.replicate_one, hstore, Option.bind_eq_bind,
      Option.bind_some]
    exact if_pos htail

theorem Holds.popTsq (h : r.Holds (x :: q)) (zero : α) :
    ∃ r', r.popTsq zero = some (x, r') ∧ r'.Holds q := by
  have hfront : r.front = r.tail.toNat % r.cap := toNat_mask h.isCap r.tail
  have hend : r.endIt = (r.tail.toNat + (x :: q).length) % r.cap := h.pos_head
  have hlt := h.lt
  have hin : r.front < r.cap := by
    rw [hfront]
    exact Nat.mod_lt _ (Nat.zero_lt_of_lt hlt)
  have hne : r.front ≠ r.endIt := by
    rw [hfront, hend]
    exact pos_ne (Nat.zero_lt_succ _) hlt
  have hval : r.array[r.front]? = some x := by
    rw [hfront]
    exact h.elems 0 (Nat.zero_lt_succ _)
  have hroom : r.front + [zero].length ≤ r.array.length := h.length_array.symm ▸ hin
  have hstore := store_of_le hroom
  generalize r.array.take _ ++ ([zero] ++ r.array.drop _) = array at hstore
  have hsize : r.size ≠ 0 := by
    rw [h.size]
    exact Nat.succ_ne_zero _
  refine ⟨{ r with array, tail := r.tail + 1 }, ?_, ?_⟩
  · rw [SeqRing.popTsq, if_neg hsize]
    simp only [hval, if_neg hne, erase_front h.isCap zero hstore, Option.bind_eq_bind,
      Option.bind_some]
  · refine ⟨h.isCap, (length_of_store hstore).trans h.length_array, ?_, ?_, ?_⟩
    · exact (Nat.lt_succ_self _).trans hlt
    · dsimp only
      rw [h.head, List.length_cons, Nat.add_comm, UInt32.ofNat_add, ← UInt32.add_assoc]
      rfl
    · intro i hi
      dsimp only
      have hpos : ((r.tail + 1).toNat + i) % r.cap = (r.tail.toNat + (i + 1)) % r.cap := by
        rw [← Nat.mod_add_mod]
        have hone : (r.tail + 1).toNat % r.cap = (r.tail.toNat + 1) % r.cap :=
          toNat_add_mod h.isCap r.tail 1
        rw [hone, Nat.mod_add_mod, Nat.add_assoc, Nat.add_comm 1]
      have hother : (r.tail.toNat + 0) % r.cap ≠ (r.tail.toNat + (i + 1)) % r.cap :=
        pos_ne (Nat.succ_pos i) ((Nat.succ_lt_succ hi).trans hlt)
      rw [Nat.add_zero, ← hfront] at hother
      rw [hpos, getElem?_of_store_of_notMem hstore (by rw [List.length_singleton]; omega),
        h.elems (i + 1) (Nat.succ_lt_succ hi), List.getElem?_cons_succ]

end SeqRing

/-! ### Queues -/

/-- The operations of a queue. -/
inductive TsqOp (α : Type) where
  | push (val : α)
  | pop
  | size
  deriving DecidableEq

/-- What they return. -/
inductive TsqOut (α : Type) where
  | pushed
  | popped (val : α)
  | counted (size : ℕ)
  deriving DecidableEq

namespace TsqOp

variable {α : Type}

/-- An operation on the ring; `none` if an assertion fails, or if the block is left. -/
def step (zero : α) (r : SeqRing α) : TsqOp α → Option (TsqOut α × SeqRing α)
  | push val => (r.pushTsq zero val).map (.pushed, ·)
  | pop => (r.popTsq zero).map fun next => (.popped next.1, next.2)
  | size => some (.counted r.sizeTsq, r)

/-- An operation on a queue without bounds; `none` if there is nothing to pop. -/
def specStep (q : List α) : TsqOp α → Option (TsqOut α × List α)
  | push val => some (.pushed, q ++ [val])
  | pop => q.head?.map fun val => (.popped val, q.tail)
  | size => some (.counted q.length, q)

/-- The counters of a ring can count the elements that are left. -/
def Counted (q : List α) (_ : SeqRing α) (op : TsqOp α) : Prop :=
  ∀ next, specStep q op = some next → next.2.length < 2 ^ 32

end TsqOp

section Queues

variable {α : Type} (zero : α)

/-- While the counters can count the elements, a ring is a queue. -/
theorem tsq_refines :
    Refines TsqOp.specStep (TsqOp.step zero) TsqOp.Counted (fun q r => r.Holds q) := by
  intro q r op h hcounted
  cases op with
  | push val =>
    have hlt := hcounted _ rfl
    rw [List.length_append] at hlt
    obtain ⟨r', hpush, hr'⟩ := h.pushBack hlt zero val
    rw [TsqOp.step, SeqRing.pushTsq, hpush]
    exact ⟨rfl, hr'⟩
  | pop =>
    rw [TsqOp.step, TsqOp.specStep]
    cases q with
    | nil =>
      have hsize : r.size = 0 := h.size
      rw [SeqRing.popTsq, if_pos hsize]
      exact trivial
    | cons x q =>
      obtain ⟨r', hpop, hr'⟩ := h.popTsq zero
      rw [hpop]
      exact ⟨rfl, hr'⟩
  | size => exact ⟨congrArg TsqOut.counted h.size.symm, h⟩

theorem tsq_fifo_of_length_lt {ops : List (TsqOp α)}
    (h : ∀ pre next, pre <+: ops → runs TsqOp.specStep [] pre = some next → next.2.length < 2 ^ 32)
    {pre : List (TsqOp α)} (hpre : pre <+: ops) :
    Matches (fun q r => r.sizeTsq = q.length) (runs TsqOp.specStep [] pre)
      (runs (TsqOp.step zero) (SeqRing.init zero) pre) := by
  have hcounted : AllowedAlong TsqOp.specStep (TsqOp.step zero) TsqOp.Counted []
      (SeqRing.init zero) pre := by
    apply allowedAlong_of_forall
    intro before op out q r hbefore hruns next hnext
    apply h _ (out ++ [next.1], next.2) (hbefore.trans hpre)
    rw [runs_concat hruns, hnext, Option.map_some]
  have hmatch := (tsq_refines zero).runs (SeqRing.holds_init zero) hcounted
  exact hmatch.mono fun q r hr => hr.size

/-- The size of a ring is a 32-bit number. -/
theorem length_lt_of_matches {x : Option (List (TsqOut α) × List α)}
    {y : Option (List (TsqOut α) × SeqRing α)}
    (h : Matches (fun q r => r.sizeTsq = q.length) x y) {next : List (TsqOut α) × List α}
    (hx : x = some next) : next.2.length < 2 ^ 32 := by
  rw [hx] at h
  cases y with
  | none => exact h.elim
  | some next' =>
    rw [← h.2]
    exact UInt32.toNat_lt _

/-- A ring is a queue along a list of operations, with the size that is the number of elements,
exactly if there are never more elements than a 32-bit number can count. -/
theorem tsq_fifo_iff (ops : List (TsqOp α)) :
    (∀ pre, pre <+: ops → Matches (fun q r => r.sizeTsq = q.length)
      (runs TsqOp.specStep [] pre) (runs (TsqOp.step zero) (SeqRing.init zero) pre)) ↔
    ∀ pre next, pre <+: ops → runs TsqOp.specStep [] pre = some next → next.2.length < 2 ^ 32 := by
  constructor
  · intro h pre next hpre hnext
    exact length_lt_of_matches (h pre hpre) hnext
  · intro h pre hpre
    exact tsq_fifo_of_length_lt zero h hpre

theorem runs_replicate_push (q : List α) (val : α) (n : ℕ) :
    runs TsqOp.specStep q (List.replicate n (.push val)) =
      some (List.replicate n .pushed, q ++ List.replicate n val) := by
  induction n generalizing q with
  | zero => rw [List.replicate_zero, List.replicate_zero, List.replicate_zero, List.append_nil,
      runs_nil]
  | succ n ih =>
    have hstep : TsqOp.specStep q (.push val) = some (.pushed, q ++ [val]) := rfl
    rw [List.replicate_succ, runs_cons, hstep, Option.bind_some, ih, Option.map_some,
      List.append_assoc, List.replicate_succ, List.replicate_succ, List.singleton_append]

theorem not_matches_replicate_push {n : ℕ} (hn : 2 ^ 32 ≤ n) (val : α) :
    ¬ Matches (fun q r => r.sizeTsq = q.length)
      (runs TsqOp.specStep [] (List.replicate n (.push val)))
      (runs (TsqOp.step zero) (SeqRing.init zero) (List.replicate n (.push val))) := by
  intro h
  have hlt := length_lt_of_matches h (runs_replicate_push [] val n)
  rw [List.nil_append, List.length_replicate] at hlt
  exact absurd hlt (Nat.not_lt_of_ge hn)

def counterValues : ℕ := 2 ^ 32

/-- A ring is no queue for as many elements as a counter has values. -/
theorem not_tsq_fifo :
    ¬ ∀ pre, pre <+: List.replicate counterValues (TsqOp.push ()) →
      Matches (fun q r => r.sizeTsq = q.length) (runs TsqOp.specStep [] pre)
        (runs (TsqOp.step ()) (SeqRing.init ()) pre) := by
  intro h
  have hle : 2 ^ 32 ≤ counterValues := Nat.le_of_eq rfl
  generalize counterValues = n at h hle
  exact not_matches_replicate_push () hle () (h _ List.prefix_rfl)

end Queues

end LlmHric.Flexric
