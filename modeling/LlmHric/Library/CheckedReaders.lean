import LlmHric.Library.ByteOrder
import LlmHric.Library.CheckedWrites

/-! A plain encoding is the fields of a record one after the other, an array as its size and its
elements. It is decoded by readers that go through a buffer. What makes a reader fail on its own
encoding is a condition on the value, and conditions add up along the way. -/

namespace Checked

open ByteOrder

variable {α β : Type}

/-- An array of elements that a number of 32 bits counts. The pointer of an empty array is null. -/
structure Counted (α : Type) where
  items : List α
  length_lt : items.length < 2 ^ 32
  deriving DecidableEq

namespace Counted

/-- The size of the array. -/
def len (xs : Counted α) : UInt32 := UInt32.ofNat xs.items.length

@[simp] theorem toNat_len (xs : Counted α) : xs.len.toNat = xs.items.length :=
  UInt32.toNat_ofNat_of_lt' xs.length_lt

theorem ext_items {xs ys : Counted α} (h : xs.items = ys.items) : xs = ys := by
  cases xs
  cases ys
  simpa using h

end Counted

/-! ### Readers -/

/-- A decoder gets a buffer and a position in it, and returns a value and the position after it. -/
def Reader (α : Type) := List UInt8 → ℕ → Outcome (α × ℕ)

namespace Reader

/-- Read a value and go on behind it. -/
protected def bind (r : Reader α) (k : α → Reader β) : Reader β := fun buf pos => do
  let (a, pos) ← r buf pos
  k a buf pos

instance : Monad Reader where
  pure a := fun _ pos => .done (a, pos)
  bind := Reader.bind

/-- A call that reads nothing. -/
def lift (x : Outcome α) : Reader α := fun _ pos => do
  let a ← x
  return (a, pos)

/-- Read some bytes. -/
def take (count : ℕ) : Reader (List UInt8) := fun buf pos => do
  let bytes ← readSlice buf pos count
  return (bytes, pos + count)

/-- Read a number of some bytes. -/
def number (count : ℕ) : Reader ℕ := do
  let bytes ← take count
  return valueLE bytes

/-- Read a number of values. -/
def many (r : Reader α) : (count : ℕ) → Reader {xs : List α // xs.length = count}
  | 0 => pure ⟨[], rfl⟩
  | count + 1 => do
    let x ← r
    let xs ← many r count
    return ⟨x :: xs.val, by rw [List.length_cons, xs.property]⟩

theorem length_lt_of_eq_toNat {xs : List α} {len : UInt32} (h : xs.length = len.toNat) :
    xs.length < 2 ^ 32 := by
  rw [h]
  exact len.toNat_lt

/-- Read as many values as are counted. -/
def counted (r : Reader α) (len : UInt32) : Reader (Counted α) := do
  let xs ← many r len.toNat
  return ⟨xs.val, length_lt_of_eq_toNat xs.property⟩

/-- The reader gets a value out of its encoding, and nothing else, exactly on a condition. -/
def DecodesIff (r : Reader α) (bytes : List UInt8) (a : α) (p : Prop) : Prop :=
  ∀ pre post res, r (pre ++ (bytes ++ post)) pre.length = .done res ↔
    p ∧ res = (a, pre.length + bytes.length)

variable {r : Reader α} {bytes xs ys : List UInt8} {a : α} {p q : Prop}

theorem DecodesIff.congr (h : DecodesIff r bytes a p) (hpq : p ↔ q) : DecodesIff r bytes a q :=
  fun pre post res => (h pre post res).trans (and_congr_left' hpq)

theorem decodesIff_pure (a : α) : DecodesIff (pure a) [] a True := by
  intro pre post res
  change Outcome.done (a, pre.length) = .done res ↔ _
  rw [Outcome.done.injEq, true_and]
  exact eq_comm

theorem decodesIff_lift {x : Outcome α} (h : ∀ b, x = .done b ↔ p ∧ b = a) :
    DecodesIff (lift x) [] a p := by
  intro pre post res
  rw [lift, Outcome.bind_eq_done_iff]
  constructor
  · rintro ⟨b, hb, hres⟩
    obtain ⟨hp, rfl⟩ := (h b).mp hb
    exact ⟨hp, (Outcome.done.inj hres).symm⟩
  · rintro ⟨hp, rfl⟩
    exact ⟨a, (h a).mpr ⟨hp, rfl⟩, rfl⟩

/-- One field after the other: a record is decoded if every field is. -/
theorem DecodesIff.bind {k : α → Reader β} {b : β} (hr : DecodesIff r xs a p)
    (hk : DecodesIff (k a) ys b q) : DecodesIff (r >>= k) (xs ++ ys) b (p ∧ q) := by
  intro pre post res
  have hnext := hk (pre ++ xs) post res
  have hfirst := hr pre (ys ++ post)
  rw [List.length_append, List.append_assoc] at hnext
  change (r _ pre.length >>= fun x => k x.1 _ x.2) = .done res ↔ _
  rw [List.append_assoc, Outcome.bind_eq_done_iff, List.length_append, ← Nat.add_assoc, and_assoc,
    ← hnext]
  constructor
  · rintro ⟨x, hx, hres⟩
    obtain ⟨hp, rfl⟩ := (hfirst x).mp hx
    exact ⟨hp, hres⟩
  · rintro ⟨hp, hres⟩
    exact ⟨_, (hfirst _).mpr ⟨hp, rfl⟩, hres⟩

theorem DecodesIff.map {f : α → β} (hr : DecodesIff r bytes a p) :
    DecodesIff (r >>= fun x => pure (f x)) bytes (f a) p := by
  have h := hr.bind (k := fun x => pure (f x)) (decodesIff_pure (f a))
  rwa [List.append_nil, and_true] at h

/-- What comes after a field may only check it. -/
theorem DecodesIff.bind_nil {k : α → Reader β} {b : β} (hr : DecodesIff r bytes a True)
    (hk : DecodesIff (k a) [] b q) : DecodesIff (r >>= k) bytes b q := by
  have h := hr.bind hk
  rwa [List.append_nil, true_and] at h

/-- A field that is always decoded asks for no condition. -/
theorem DecodesIff.bind_of_true {k : α → Reader β} {b : β} (hr : DecodesIff r xs a True)
    (hk : DecodesIff (k a) ys b q) : DecodesIff (r >>= k) (xs ++ ys) b q := by
  have h := hr.bind hk
  rwa [true_and] at h

theorem decodesIff_take {count : ℕ} (hcount : count = bytes.length) :
    DecodesIff (take count) bytes bytes True := by
  subst hcount
  intro pre post res
  rw [take, readSlice_append pre post rfl rfl, Outcome.done_bind, Outcome.pure_eq,
    Outcome.done.injEq, true_and]
  exact eq_comm

theorem decodesIff_number {n count : ℕ} (h : n < 256 ^ count) :
    DecodesIff (number count) (bytesLE n count) n True := by
  have hread := (decodesIff_take (length_bytesLE n count).symm).map (f := valueLE)
  rwa [valueLE_bytesLE, Nat.mod_eq_of_lt h] at hread

theorem DecodesIff.many {enc : α → List UInt8} {cond : α → Prop} {as : List α} {count : ℕ}
    (hr : ∀ a ∈ as, DecodesIff r (enc a) a (cond a)) (hcount : as.length = count) :
    DecodesIff (many r count) (as.flatMap enc) ⟨as, hcount⟩ (∀ a ∈ as, cond a) := by
  induction as generalizing count with
  | nil =>
    subst hcount
    exact (decodesIff_pure _).congr (by simp)
  | cons a as ih =>
    subst hcount
    have hrest := ih (fun b hb => hr b (by simp [hb])) rfl
    rw [List.flatMap_cons]
    refine DecodesIff.congr ((hr a (by simp)).bind (hrest.map)) ?_
    simp

/-- An array is decoded if every element is. -/
theorem DecodesIff.counted {enc : α → List UInt8} {cond : α → Prop} {as : Counted α}
    (hr : ∀ a ∈ as.items, DecodesIff r (enc a) a (cond a)) :
    DecodesIff (counted r as.len) (as.items.flatMap enc) as (∀ a ∈ as.items, cond a) :=
  (DecodesIff.many hr as.toNat_len.symm).map

/-- A reader goes through a whole buffer if the buffer is an encoding. -/
theorem DecodesIff.run_iff (h : DecodesIff r bytes a p) {res : α × ℕ} :
    r bytes 0 = .done res ↔ p ∧ res = (a, bytes.length) := by
  have h := h [] [] res
  simpa using h

end Reader

end Checked
