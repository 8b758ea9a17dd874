import LlmHric.Library.Outcome
import Mathlib.Data.List.GetD

/-! A buffer has a size that its readers should keep to, and often a part of it that one reader
should keep to. A read is checked against the size, and recorded in any case, so that a call can be
held against the part. -/

namespace Checked

/-- The byte of a buffer at an index; reading beyond the buffer is a fault. -/
def byteAt (buf : List UInt8) (i : ℕ) : Outcome UInt8 :=
  match buf[i]? with
  | some b => .done b
  | none => .fault .outOfBounds

variable {buf : List UInt8} {i : ℕ}

theorem byteAt_of_lt (h : i < buf.length) : byteAt buf i = .done (buf.getD i 0) := by
  rw [byteAt, List.getElem?_eq_getElem h, List.getD_eq_getElem _ _ h]

theorem byteAt_of_le (h : buf.length ≤ i) : byteAt buf i = .fault .outOfBounds := by
  rw [byteAt, List.getElem?_eq_none h]

theorem byteAt_cases (buf : List UInt8) (i : ℕ) :
    byteAt buf i = .fault .outOfBounds ∨ ∃ b, byteAt buf i = .done b := by
  rw [byteAt]
  split
  · exact .inr ⟨_, rfl⟩
  · exact .inl rfl

theorem byteAt_append {pre bytes post : List UInt8} {j : ℕ} (hi : i = pre.length + j)
    (hj : j < bytes.length) : byteAt (pre ++ (bytes ++ post)) i = .done (bytes.getD j 0) := by
  rw [byteAt_of_lt]
  · rw [hi, List.getD_append_right _ _ _ _ (Nat.le_add_right _ _), Nat.add_sub_cancel_left,
      List.getD_append _ _ _ _ hj]
  · simp only [List.length_append]
    omega

/-! ### Recorded reads -/

/-- A call, and the indices that it reads. -/
structure Traced (α : Type) where
  outcome : Outcome α
  reads : List ℕ

namespace Traced

variable {α β : Type}

/-- Run a call and continue with its value. -/
protected def bind (x : Traced α) (k : α → Traced β) : Traced β :=
  match x.outcome with
  | .done a => ⟨(k a).outcome, x.reads ++ (k a).reads⟩
  | .refused => ⟨.refused, x.reads⟩
  | .fault f => ⟨.fault f, x.reads⟩

instance : Monad Traced where
  pure a := ⟨.done a, []⟩
  bind := Traced.bind

instance : MonadLift Outcome Traced where
  monadLift x := ⟨x, []⟩

@[simp] theorem outcome_pure (a : α) : (pure a : Traced α).outcome = .done a := rfl

@[simp] theorem reads_pure (a : α) : (pure a : Traced α).reads = [] := rfl

@[simp] theorem outcome_lift (x : Outcome α) : (liftM x : Traced α).outcome = x := rfl

@[simp] theorem reads_lift (x : Outcome α) : (liftM x : Traced α).reads = [] := rfl

theorem outcome_bind (x : Traced α) (k : α → Traced β) :
    (x >>= k).outcome = x.outcome >>= fun a => (k a).outcome := by
  change (Traced.bind x k).outcome = _
  rw [Traced.bind]
  cases x.outcome <;> rfl

/-- A call of a sequence is read if the calls before it succeed. -/
theorem mem_reads_bind {x : Traced α} {k : α → Traced β} :
    i ∈ (x >>= k).reads ↔ i ∈ x.reads ∨ ∃ a, x.outcome = .done a ∧ i ∈ (k a).reads := by
  change i ∈ (Traced.bind x k).reads ↔ _
  rw [Traced.bind]
  cases x.outcome with
  | done a => simp
  | refused => simp
  | fault f => simp

/-- All reads are in a range. -/
def Within (lo hi : ℕ) (x : Traced α) : Prop := ∀ i ∈ x.reads, lo ≤ i ∧ i < hi

theorem Within.pure (lo hi : ℕ) (a : α) : Within lo hi (pure a : Traced α) := by
  intro i hi
  cases hi

theorem Within.lift (lo hi : ℕ) (x : Outcome α) : Within lo hi (liftM x : Traced α) := by
  intro i hi
  cases hi

theorem Within.bind {lo hi : ℕ} {x : Traced α} {k : α → Traced β} (hx : Within lo hi x)
    (hk : ∀ a, x.outcome = .done a → Within lo hi (k a)) : Within lo hi (x >>= k) := by
  intro i hmem
  rcases mem_reads_bind.mp hmem with h | ⟨a, ha, h⟩
  · exact hx i h
  · exact hk a ha i h

end Traced

/-- A read that is recorded. -/
def readByte (buf : List UInt8) (i : ℕ) : Traced UInt8 := ⟨byteAt buf i, [i]⟩

@[simp] theorem outcome_readByte : (readByte buf i).outcome = byteAt buf i := rfl

@[simp] theorem reads_readByte : (readByte buf i).reads = [i] := rfl

theorem within_readByte {lo hi : ℕ} (hlo : lo ≤ i) (hhi : i < hi) :
    Traced.Within lo hi (readByte buf i) := by
  intro j hj
  obtain rfl := List.mem_singleton.mp hj
  exact ⟨hlo, hhi⟩

/-- The bytes in a range of memory. -/
def bytesAt (mem : ℕ → UInt8) (lo count : ℕ) : List UInt8 := (List.range' lo count).map mem

/-- A read of memory, which goes on behind a buffer. -/
def readMemory (mem : ℕ → UInt8) (i : ℕ) : Traced UInt8 := ⟨.done (mem i), [i]⟩

def readRange (mem : ℕ → UInt8) (lo count : ℕ) : Traced (List UInt8) :=
  ⟨.done (bytesAt mem lo count), List.range' lo count⟩

variable {mem mem' : ℕ → UInt8} {lo count k : ℕ}

@[simp] theorem outcome_readMemory : (readMemory mem i).outcome = .done (mem i) := rfl

@[simp] theorem outcome_readRange :
    (readRange mem lo count).outcome = .done (bytesAt mem lo count) := rfl

theorem within_readMemory {hi : ℕ} (hlo : lo ≤ i) (hhi : i < hi) :
    Traced.Within lo hi (readMemory mem i) := by
  intro j hj
  obtain rfl := List.mem_singleton.mp hj
  exact ⟨hlo, hhi⟩

theorem within_readRange {first hi : ℕ} (hlo : lo ≤ first) (hhi : first + count ≤ hi) :
    Traced.Within lo hi (readRange mem first count) := by
  intro j hj
  obtain ⟨hle, hlt⟩ := List.mem_range'_1.mp hj
  omega

@[simp] theorem length_bytesAt : (bytesAt mem lo count).length = count := by
  rw [bytesAt, List.length_map, List.length_range']

theorem drop_bytesAt : (bytesAt mem lo count).drop k = bytesAt mem (lo + k) (count - k) := by
  rw [bytesAt, bytesAt, ← List.map_drop, List.drop_range', Nat.mul_one]

theorem take_bytesAt (h : k ≤ count) : (bytesAt mem lo count).take k = bytesAt mem lo k := by
  rw [bytesAt, bytesAt, ← List.map_take, List.take_range'_of_length_ge h]

theorem getD_bytesAt (h : k < count) : (bytesAt mem lo count).getD k 0 = mem (lo + k) := by
  simp [bytesAt, h]

theorem bytesAt_append (a b : ℕ) :
    bytesAt mem lo a ++ bytesAt mem (lo + a) b = bytesAt mem lo (a + b) := by
  rw [bytesAt, bytesAt, bytesAt, ← List.map_append, List.range'_append_1]

theorem bytesAt_congr (h : ∀ i, lo ≤ i → i < lo + count → mem i = mem' i) :
    bytesAt mem lo count = bytesAt mem' lo count := by
  apply List.map_congr_left
  intro i hi
  obtain ⟨hle, hlt⟩ := List.mem_range'_1.mp hi
  exact h i hle hlt

end Checked
